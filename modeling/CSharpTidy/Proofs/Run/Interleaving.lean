import CSharpTidy.Proofs.Run.Lifecycle

/-!
# Runs that share a workspace

Any number of runs begin at any time and are asked things in any order. A commit that has something to
change goes through only while its run's snapshot is the live one, so no commit overwrites another that
its run has not seen.
-/

namespace CSharpTidy

open Solution (Variant)

/-- A commit that changed something: the snapshot its run began with, what was pending, and the live
snapshot it made. -/
structure Landing where
  base : Solution
  changes : Changes
  made : Solution

namespace Landing

variable {first last : Solution} {landings : List Landing}

/-- Each landing began with the snapshot that the one before it made. -/
def Chain (first : Solution) : List Landing → Solution → Prop
  | [], last => last = first
  | landing :: landings, last => landing.base = first ∧ Chain landing.made landings last

theorem Chain.concat (h : Chain first landings last) {landing : Landing}
    (hbase : landing.base = last) : Chain first (landings ++ [landing]) landing.made := by
  induction landings generalizing first with
  | nil => exact ⟨hbase.trans h, rfl⟩
  | cons other landings ih => exact ⟨h.1, ih h.2⟩

/-- What the last landing that changed a document made of it. -/
def lastText? (landings : List Landing) (id : DocumentId) : Option Text :=
  landings.reverse.findSome? fun landing => landing.changes.get? id

theorem lastText?_concat (landings : List Landing) (landing : Landing) (id : DocumentId) :
    lastText? (landings ++ [landing]) id = (landing.changes.get? id).or (lastText? landings id) := by
  rw [lastText?, List.reverse_append, List.reverse_singleton, List.singleton_append,
    List.findSome?_cons]
  cases landing.changes.get? id <;> rfl

end Landing

/-- Runs over one workspace with a store in memory, and what their commits have changed so far. -/
structure SharedRuns where
  workspace : Workspace MapStore
  runs : List Run := []
  landings : List Landing := []

namespace SharedRuns

inductive Step where
  | start (notices : List Notice)
  | call (index : Nat) (call : Run.Call)
  | failWrites (fail : Bool)

def landed (run : Run) (live : Solution) : Except Fault Run.Reply → List Landing
  | .ok (.commit _) =>
      if run.pendingTexts.keys = [] then [] else [⟨run.base, run.pendingTexts, live⟩]
  | _ => []

def step (state : SharedRuns) : Step → SharedRuns
  | .start notices =>
      match Run.start state.workspace.live notices with
      | .error _ => state
      | .ok run => { state with runs := state.runs ++ [run] }
  | .call index call =>
      match state.runs[index]? with
      | none => state
      | some run =>
          let (result, next, workspace) := run.call state.workspace call
          ⟨workspace, state.runs.set index next, state.landings ++ landed run workspace.live result⟩
  | .failWrites fail => { state with workspace.store.failWrites := fail }

def after (start : Workspace MapStore) (steps : List Step) : SharedRuns :=
  steps.foldl step { workspace := start }

/-- A run knows the live snapshot, or began with one of an earlier version. -/
structure Follows (first live : Solution) (run : Run) : Prop where
  kept : run.Kept run.base
  variant : first.Variant run.base
  version_le : run.base.version ≤ live.version
  eq_of_version : run.base.version = live.version → run.base = live

/-- What every step keeps. -/
structure Consistent (start : Workspace MapStore) (state : SharedRuns) : Prop where
  live : start.live.Variant state.workspace.live
  runs : ∀ run ∈ state.runs, Follows start.live state.workspace.live run
  chain : Landing.Chain start.live state.landings state.workspace.live
  texts : ∀ id, state.workspace.live.text? id =
    (Landing.lastText? state.landings id).or (start.live.text? id)
  files : ∀ place ∈ start.live.frame.places, state.workspace.store.files.get? place.2 =
    (Landing.lastText? state.landings place.1).or (start.store.files.get? place.2)

variable {start : Workspace MapStore} {state : SharedRuns} {run next : Run}

theorem consistent_start (hlive : start.live.Sound) : Consistent start { workspace := start } where
  live := .refl hlive
  runs := by simp
  chain := rfl
  texts _ := rfl
  files _ _ := rfl

theorem Follows.of_kept (h : Follows start.live state.workspace.live run)
    (hnext : next.Kept run.base) : Follows start.live state.workspace.live next := by
  have hbase := hnext.base
  exact ⟨hbase ▸ hnext, hbase ▸ h.variant, hbase ▸ h.version_le, hbase ▸ h.eq_of_version⟩

namespace Consistent

theorem setRun (h : Consistent start state) (hnext : Follows start.live state.workspace.live next)
    (index : Nat) : Consistent start { state with runs := state.runs.set index next } where
  live := h.live
  runs run hmem := by
    rcases List.mem_or_eq_of_mem_set hmem with hold | rfl
    · exact h.runs run hold
    · exact hnext
  chain := h.chain
  texts := h.texts
  files := h.files

/-- A commit over the snapshot its run began with lands on top of the one that made it. -/
theorem land (h : Consistent start state) (hapart : start.live.frame.PathsApart)
    (hrun : Follows start.live state.workspace.live run)
    (hversion : state.workspace.live.version = run.base.version) {store : MapStore}
    (hwrite : Store.writeAll state.workspace.store
      (Workspace.fileChanges state.workspace.live run.working) = (.ok (), store)) :
    Consistent start
      { state with
        workspace := ⟨{ run.working with version := run.base.version + 1 }, store⟩
        landings := state.landings ++
          [⟨run.base, run.pendingTexts, { run.working with version := run.base.version + 1 }⟩] } := by
  have hbase : run.base = state.workspace.live := hrun.eq_of_version hversion.symm
  have hworking : start.live.Variant run.working := hrun.variant.trans hrun.kept.working
  obtain ⟨-, rfl⟩ := MapStore.eq_of_writeAll_ok hwrite
  refine ⟨hworking.withVersion _, fun other hmem => ?_, ?_, fun id => ?_, fun place hplace => ?_⟩
  · -- every run falls behind the new live snapshot, also the one that made it
    have hother := h.runs other hmem
    have hle := hother.version_le
    refine ⟨hother.kept, hother.variant, ?_, fun heq => ?_⟩ <;> simp only at * <;> omega
  · exact h.chain.concat hbase
  · rw [Landing.lastText?_concat, Option.or_assoc, ← h.texts, ← hbase]
    exact hrun.kept.text?_working id
  · have hfile := Workspace.get?_insertMany_written state.workspace.store.files
      state.workspace.live hworking.sound (hworking.frame ▸ hapart)
      (hworking.frame ▸ hplace)
    rw [Landing.lastText?_concat, Option.or_assoc, ← h.files place hplace]
    refine hfile.trans ?_
    rw [hrun.kept.text?_working, ← hbase]
    cases hget : run.pendingTexts.get? place.1 with
    | none => exact if_pos rfl
    | some text => exact if_neg ((hrun.kept.get?_pendingTexts_eq_some_iff _ _).mp hget).2

theorem step (h : Consistent start state) (hapart : start.live.frame.PathsApart) (step : Step) :
    Consistent start (state.step step) := by
  cases step with
  | start notices =>
      rw [SharedRuns.step]
      split
      · exact h
      · next run hstart =>
          refine { h with runs := fun other hmem => ?_ }
          rcases List.mem_append.mp hmem with hold | hnew
          · exact h.runs other hold
          · obtain rfl := List.mem_singleton.mp hnew
            have hkept := Run.kept_start h.live.sound hstart
            have hbase := hkept.base
            exact ⟨hbase.symm ▸ hkept, hbase.symm ▸ h.live, hbase ▸ Nat.le_refl _, fun _ => hbase⟩
  | failWrites fail => exact ⟨h.live, h.runs, h.chain, h.texts, h.files⟩
  | call index call =>
      rw [SharedRuns.step]
      split
      · exact h
      · next run hrun =>
          have hmem := List.mem_of_getElem? hrun
          have hfollows := h.runs run hmem
          have houtcome := hfollows.kept.outcome state.workspace call
          revert houtcome
          rcases run.call state.workspace call with ⟨result, next, workspace⟩
          intro houtcome
          have hkept := houtcome.kept hfollows.kept
          have hset := h.setRun (hfollows.of_kept hkept) index
          cases houtcome with
          | idle hopen hpending => simpa [landed, hpending] using hset
          | unwritten hopen hpending hversion fault store hwrite reason =>
              obtain ⟨-, rfl⟩ := MapStore.eq_of_writeAll_error hwrite
              simpa [landed] using hset
          | committed hopen hpending hversion store hwrite =>
              have hland := h.land hapart hfollows hversion hwrite
              simpa [landed, hpending] using hland.setRun ((hland.runs run hmem).of_kept hkept) index
          | _ => simpa [landed] using hset

end Consistent

theorem consistent_after (hlive : start.live.Sound) (hapart : start.live.frame.PathsApart)
    (steps : List Step) : Consistent start (after start steps) := by
  have hfoldl : ∀ state, Consistent start state →
      Consistent start (steps.foldl SharedRuns.step state) := by
    induction steps with
    | nil => exact fun _ h => h
    | cons step steps ih => exact fun state h => ih _ (h.step hapart step)
  exact hfoldl _ (consistent_start hlive)

/-- A commit changes the workspace exactly when it has something to change, knows the live snapshot and
meets a store that accepts it. -/
theorem Consistent.commit (h : Consistent start state) (hrun : run ∈ state.runs)
    {result : Except Fault Run.Reply} {workspace : Workspace MapStore}
    (hcall : run.call state.workspace .commit = (result, next, workspace)) :
    (run.isOpen = true → run.pendingTexts.keys ≠ [] →
      (result.isOk = true ↔ state.workspace.live.version = run.base.version ∧
        state.workspace.store.failWrites = false) ∧
      (result.isOk = true → workspace.live.version = state.workspace.live.version + 1)) ∧
    (run.isOpen = true → run.pendingTexts.keys = [] →
      result.isOk = true ∧ workspace = state.workspace) ∧
    (run.isOpen = false → result.isOk = false) ∧
    ∀ fault, result = .error fault →
      (∃ reason, fault = .commitRejected reason ∨ fault = .invalidState reason) ∧
      workspace = state.workspace := by
  have houtcome := (h.runs run hrun).kept.outcome state.workspace .commit
  rw [hcall] at houtcome
  cases houtcome with
  | refused hrefused =>
      have hclosed : run.isOpen = false := hrefused
      simp [hclosed, Except.isOk, Except.toBool, Run.stateFault]
  | edited hedits => cases hedits
  | idle hopen hpending => simp [hopen, hpending, Except.isOk, Except.toBool]
  | stale hopen hpending hversion reason =>
      simp [hopen, hpending, hversion, Except.isOk, Except.toBool]
  | unwritten hopen hpending hversion fault store hwrite reason =>
      obtain ⟨hfails, rfl⟩ := MapStore.eq_of_writeAll_error hwrite
      simp [hopen, hpending, hfails, Except.isOk, Except.toBool]
  | committed hopen hpending hversion store hwrite =>
      obtain ⟨haccepts, -⟩ := MapStore.eq_of_writeAll_ok hwrite
      simp [hopen, hpending, hversion, haccepts, Except.isOk, Except.toBool]

/-- However runs are interleaved, a commit with something pending goes through exactly while its run's
snapshot is live and the store accepts writes, all other commits change nothing, each commit that changed
something began with what the one before it made, and each document is as the last of them to change it
left it. -/
theorem no_lost_update (hlive : start.live.Sound) (hapart : start.live.frame.PathsApart)
    (steps : List Step) :
    (∀ run ∈ (after start steps).runs, ∀ result next workspace,
      run.call (after start steps).workspace .commit = (result, next, workspace) →
      (run.isOpen = true → run.pendingTexts.keys ≠ [] →
        (result.isOk = true ↔ (after start steps).workspace.live.version = run.base.version ∧
          (after start steps).workspace.store.failWrites = false) ∧
        (result.isOk = true →
          workspace.live.version = (after start steps).workspace.live.version + 1)) ∧
      (run.isOpen = true → run.pendingTexts.keys = [] →
        result.isOk = true ∧ workspace = (after start steps).workspace) ∧
      (run.isOpen = false → result.isOk = false) ∧
      ∀ fault, result = .error fault →
        (∃ reason, fault = .commitRejected reason ∨ fault = .invalidState reason) ∧
        workspace = (after start steps).workspace) ∧
    Landing.Chain start.live (after start steps).landings (after start steps).workspace.live ∧
    ∀ document ∈ start.live.documents,
      (after start steps).workspace.live.text? document.id = some
        ((Landing.lastText? (after start steps).landings document.id).getD document.text) ∧
      (after start steps).workspace.store.files.get? document.path =
        (Landing.lastText? (after start steps).landings document.id).or
          (start.store.files.get? document.path) := by
  have h := consistent_after hlive hapart steps
  generalize after start steps = state at h
  refine ⟨fun run hrun result next workspace hcall => ?_, h.chain, fun document hmem => ⟨?_, ?_⟩⟩
  · exact h.commit hrun hcall
  · rw [h.texts, Solution.text?_of_mem hlive.nodup hmem]
    cases Landing.lastText? state.landings document.id <;> rfl
  · exact h.files (document.id, document.path) (List.mem_map_of_mem hmem)

theorem no_lost_update_of_late_run :
    ∃ (start : Workspace MapStore) (steps : List Step) (run : Run),
      start.live.Sound ∧ start.live.frame.PathsApart ∧ run ∈ (after start steps).runs ∧
      run.isOpen = true ∧ run.pendingTexts.keys = [⟨0⟩] ∧
      (run.call (after start steps).workspace .commit).1.isOk = false ∧
      (run.call (after start steps).workspace .commit).2.2 = (after start steps).workspace := by
  obtain ⟨start, steps, run, hlive, hapart, hrun, hopen, hpending, hversion⟩ :
      ∃ (start : Workspace MapStore) (steps : List Step) (run : Run),
        start.live.Sound ∧ start.live.frame.PathsApart ∧ (after start steps).runs[1]? = some run ∧
        run.isOpen = true ∧ run.pendingTexts.keys = [⟨0⟩] ∧
        (after start steps).workspace.live.version ≠ run.base.version := by
    let live : Solution :=
      ⟨0, [], [(Document.parse CSharp.reader ⟨0⟩ ⟨"A.cs"⟩ "using A;  \n".toList).1], CSharp.reader⟩
    let analyze : Run.Call := .analyze ⟨[], {}⟩
    let format : Run.Call := .format spacingFormatter {}
    -- the first run commits while the second one is still at work
    let steps : List Step := [.start [], .start [], .call 0 analyze, .call 1 analyze, .call 0 format,
      .call 1 format, .call 0 .commit]
    have hlate : (after ⟨live, {}⟩ steps).runs[1]?.any (fun run =>
        run.isOpen && (run.pendingTexts.keys == [⟨0⟩] &&
          (after ⟨live, {}⟩ steps).workspace.live.version != run.base.version)) = true := by
      decide +kernel
    obtain ⟨run, hrun, hfacts⟩ := (Option.any_eq_true ..).mp hlate
    simp only [Bool.and_eq_true, beq_iff_eq, bne_iff_ne] at hfacts
    refine ⟨⟨live, {}⟩, steps, run, ⟨?_, ?_⟩, ?_, hrun, hfacts⟩
    · exact List.nodup_singleton _
    · intro document hmem
      rw [List.mem_singleton.mp hmem]
      rfl
    · exact List.pairwise_singleton ..
  have hmem := List.mem_of_getElem? hrun
  obtain ⟨hcommits, -, -⟩ := no_lost_update hlive hapart steps
  obtain ⟨hdecides, -, -, hfault⟩ := hcommits run hmem _ _ _ rfl
  have hrejected : (run.call (after start steps).workspace .commit).1.isOk = false := by
    refine Bool.eq_false_iff.mpr fun hok => hversion ?_
    exact ((hdecides hopen (by simp [hpending])).1.mp hok).1
  refine ⟨start, steps, run, hlive, hapart, hmem, hopen, hpending, hrejected, ?_⟩
  cases hresult : (run.call (after start steps).workspace .commit).1 with
  | ok reply =>
      rw [hresult] at hrejected
      cases hrejected
  | error fault => exact (hfault fault hresult).2

end SharedRuns

end CSharpTidy
