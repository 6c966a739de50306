import CSharpTidy.Proofs.Workspace.Commit

/-!
# Clients that hold snapshots

Clients keep any snapshots they have seen or made and come back with them at any time. Whatever they do,
the store holds the live texts, and an operation that does not go well leaves the workspace alone.
-/

namespace CSharpTidy

open Solution (Variant)

/-- A workspace over a store in memory, and the snapshots that its clients hold. -/
structure Clients where
  workspace : Workspace MapStore
  held : List Solution := []

namespace Clients

/-- What a client can do. Snapshots are named by their places among those held. A staging is open to its
holder, so a commit may name any documents as changed. -/
inductive Act where
  | look
  | setText (index : Nat) (id : DocumentId) (text : Text)
  | stage (index : Nat) (changes : Changes)
  | commit (index : Nat) (changed : List DocumentId) (notices : List Notice)
  | apply (index : Nat) (changes : Changes)
  | accept (index : Nat)
  | failWrites (fail : Bool)

inductive Reply where
  | snapshot (result : Except Fault Solution)
  | committed (result : Except Fault Commit)
  | accepted (result : Except Fault Bool)
  | switched

def Reply.failed : Reply → Bool
  | snapshot (.error _) => true
  | committed (.error _) => true
  | accepted (.error _) => true
  | accepted (.ok false) => true
  | _ => false

def keep (state : Clients) : Except Fault Solution → Reply × Clients
  | .error fault => (.snapshot (.error fault), state)
  | .ok solution => (.snapshot (.ok solution), { state with held := state.held ++ [solution] })

/-- Does what a client does with one of the snapshots held. -/
def step (state : Clients) : Act → Option (Reply × Clients)
  | .look => some (state.keep (.ok state.workspace.live))
  | .setText index id text => do
      let solution ← state.held[index]?
      return state.keep ((solution.setText id text).map Prod.fst)
  | .stage index changes => do
      let solution ← state.held[index]?
      return state.keep ((CSharpTidy.stage solution changes).map Staging.solution)
  | .commit index changed notices => do
      let solution ← state.held[index]?
      let (result, workspace) := state.workspace.commit ⟨solution, changed, notices⟩
      return (.committed result, { state with workspace })
  | .apply index changes => do
      let solution ← state.held[index]?
      let (result, workspace) := state.workspace.apply solution changes
      return (.committed result, { state with workspace })
  | .accept index => do
      let solution ← state.held[index]?
      let (result, workspace) := state.workspace.accept solution
      return (.accepted result, { state with workspace })
  | .failWrites fail => some (.switched, { state with workspace.store.failWrites := fail })

/-- The states that acts lead to. -/
inductive Reached (start : Workspace MapStore) : Clients → Prop
  | start : Reached start { workspace := start }
  | step {state next : Clients} {reply : Reply} (h : Reached start state) (act : Act)
      (hstep : state.step act = some (reply, next)) : Reached start next

/-- What every act keeps. -/
structure InStep (start : Workspace MapStore) (state : Clients) : Prop where
  live : start.live.Variant state.workspace.live
  held : ∀ solution ∈ state.held, start.live.Variant solution
  files : ∀ place ∈ start.live.frame.places,
    state.workspace.store.files.get? place.2 = state.workspace.live.text? place.1
  others : ∀ path, (∀ place ∈ start.live.frame.places, compare path place.2 ≠ .eq) →
    state.workspace.store.files.get? path = start.store.files.get? path

variable {start : Workspace MapStore} {state next : Clients} {act : Act} {reply : Reply}
  {proposed : Solution} {workspace : Workspace MapStore}

theorem accept_of_failed (h : (workspace.accept proposed).1 ≠ .ok true) :
    (workspace.accept proposed).2 = workspace := by
  rcases workspace.accept_cases proposed with
    ⟨-, haccept⟩ | ⟨-, ⟨fault, store, hwrite, haccept⟩ | ⟨store, hwrite, haccept⟩⟩
  · rw [haccept]
  · obtain ⟨-, rfl⟩ := MapStore.eq_of_writeAll_error hwrite
    rw [haccept]
  · rw [haccept] at h
    exact absurd rfl h

/-- What can become of an act. -/
inductive Outcome (start : Workspace MapStore) (state : Clients) : Act → Reply → Clients → Prop
  | kept {act : Act} (solution : Solution) (hvariant : start.live.Variant solution) :
      Outcome start state act (.snapshot (.ok solution))
        { state with held := state.held ++ [solution] }
  | still {act : Act} {reply : Reply} (h : reply ≠ .accepted (.ok true)) :
      Outcome start state act reply state
  | switched (fail : Bool) :
      Outcome start state (.failWrites fail) .switched
        { state with workspace.store.failWrites := fail }
  | swapped {act : Act} {reply : Reply} (proposed : Solution)
      (hvariant : start.live.Variant proposed)
      (haccept : (state.workspace.accept proposed).1 = .ok true) (hreply : reply.failed = false)
      (hact : ∀ index, act = .accept index → state.held[index]? = some proposed) :
      Outcome start state act reply
        { state with workspace := (state.workspace.accept proposed).2 }

theorem outcome_keep {result : Except Fault Solution}
    (hresult : ∀ solution, result = .ok solution → start.live.Variant solution) :
    Outcome start state act (state.keep result).1 (state.keep result).2 := by
  cases result with
  | error fault => exact .still (by simp [keep])
  | ok solution => exact .kept solution (hresult solution rfl)

theorem outcome_commit (staged : Staging)
    (hvariant : start.live.Variant staged.solution) (hact : ∀ index, act ≠ .accept index) :
    Outcome start state act (.committed (state.workspace.commit staged).1)
      { state with workspace := (state.workspace.commit staged).2 } := by
  rcases state.workspace.commit_cases staged with
    ⟨-, hcommit⟩ | ⟨-, ⟨haccept, hcommit⟩ | ⟨haccept, reason, hcommit⟩⟩
  · rw [hcommit]
    exact .still (by simp)
  · rw [hcommit]
    exact .swapped staged.solution hvariant haccept rfl fun index heq => absurd heq (hact index)
  · rw [hcommit, accept_of_failed haccept]
    exact .still (by simp)

theorem InStep.outcome (h : InStep start state) (hstep : state.step act = some (reply, next)) :
    Outcome start state act reply next := by
  cases act with
  | look =>
      obtain ⟨rfl, rfl⟩ := Prod.mk.inj (Option.some.inj hstep)
      exact .kept _ h.live
  | setText index id text =>
      obtain ⟨solution, hsolution, hkeep⟩ := Option.bind_eq_some_iff.mp hstep
      have hheld := h.held solution (List.mem_of_getElem? hsolution)
      obtain ⟨rfl, rfl⟩ := Prod.mk.inj (Option.some.inj hkeep)
      refine outcome_keep fun other hother => ?_
      cases hset : solution.setText id text with
      | error fault =>
          rw [hset] at hother
          cases hother
      | ok result =>
          rw [hset] at hother
          obtain rfl := Except.ok.inj hother
          exact hheld.trans (Variant.of_setText hheld.sound hset).1
  | stage index changes =>
      obtain ⟨solution, hsolution, hkeep⟩ := Option.bind_eq_some_iff.mp hstep
      have hheld := h.held solution (List.mem_of_getElem? hsolution)
      obtain ⟨rfl, rfl⟩ := Prod.mk.inj (Option.some.inj hkeep)
      refine outcome_keep fun other hother => ?_
      cases hstage : CSharpTidy.stage solution changes with
      | error fault =>
          rw [hstage] at hother
          cases hother
      | ok staged =>
          rw [hstage] at hother
          obtain rfl := Except.ok.inj hother
          exact hheld.trans (variant_of_stage hheld.sound hstage).1
  | commit index changed notices =>
      obtain ⟨solution, hsolution, hcommit⟩ := Option.bind_eq_some_iff.mp hstep
      have hheld := h.held solution (List.mem_of_getElem? hsolution)
      have hpair : (Reply.committed (state.workspace.commit ⟨solution, changed, notices⟩).1,
          { state with
            workspace := (state.workspace.commit ⟨solution, changed, notices⟩).2 }) = (reply, next) :=
        Option.some.inj hcommit
      obtain ⟨rfl, rfl⟩ := Prod.mk.inj hpair
      exact outcome_commit ⟨solution, changed, notices⟩ hheld (by simp)
  | apply index changes =>
      obtain ⟨solution, hsolution, happly⟩ := Option.bind_eq_some_iff.mp hstep
      have hheld := h.held solution (List.mem_of_getElem? hsolution)
      have hpair : (Reply.committed (state.workspace.apply solution changes).1,
          { state with workspace := (state.workspace.apply solution changes).2 }) = (reply, next) :=
        Option.some.inj happly
      obtain ⟨rfl, rfl⟩ := Prod.mk.inj hpair
      rw [Workspace.apply]
      cases hstage : CSharpTidy.stage solution changes with
      | error fault => exact .still (by simp)
      | ok staged =>
          exact outcome_commit staged (hheld.trans (variant_of_stage hheld.sound hstage).1)
            (by simp)
  | accept index =>
      obtain ⟨solution, hsolution, haccepted⟩ := Option.bind_eq_some_iff.mp hstep
      have hheld := h.held solution (List.mem_of_getElem? hsolution)
      have hpair : (Reply.accepted (state.workspace.accept solution).1,
          { state with workspace := (state.workspace.accept solution).2 }) = (reply, next) :=
        Option.some.inj haccepted
      obtain ⟨rfl, rfl⟩ := Prod.mk.inj hpair
      -- only an accepted snapshot moves the workspace on
      by_cases haccept : (state.workspace.accept solution).1 = .ok true
      · rw [haccept]
        refine .swapped solution hheld haccept rfl fun other heq => ?_
        cases heq
        exact hsolution
      · rw [accept_of_failed haccept]
        exact .still (by simpa using haccept)
  | failWrites fail =>
      obtain ⟨rfl, rfl⟩ := Prod.mk.inj (Option.some.inj hstep)
      exact .switched fail

theorem accept_eq_of_ok (h : (workspace.accept proposed).1 = .ok true) :
    (workspace.accept proposed).2.live = { proposed with version := workspace.live.version + 1 } ∧
      (workspace.accept proposed).2.store.files =
        workspace.store.files.insertMany (Workspace.written workspace.live proposed) := by
  rcases workspace.accept_cases proposed with
    ⟨-, haccept⟩ | ⟨-, ⟨fault, store, -, haccept⟩ | ⟨store, hwrite, haccept⟩⟩
  · rw [haccept] at h
    cases h
  · rw [haccept] at h
    cases h
  · obtain ⟨-, rfl⟩ := MapStore.eq_of_writeAll_ok hwrite
    rw [haccept]
    exact ⟨rfl, rfl⟩

theorem inStep_start (hlive : start.live.Sound)
    (hfiles : ∀ document ∈ start.live.documents,
      start.store.files.get? document.path = some document.text) :
    InStep start { workspace := start } where
  live := .refl hlive
  held := by simp
  files place hplace := by
    obtain ⟨document, hmem, rfl⟩ := List.mem_map.mp hplace
    exact (hfiles document hmem).trans (Solution.text?_of_mem hlive.nodup hmem).symm
  others _ _ := rfl

theorem InStep.step (h : InStep start state) (hapart : start.live.frame.PathsApart)
    (hstep : state.step act = some (reply, next)) : InStep start next := by
  cases h.outcome hstep with
  | kept solution hvariant =>
      refine { h with held := fun other hmem => ?_ }
      rcases List.mem_append.mp hmem with hold | hnew
      · exact h.held other hold
      · exact List.mem_singleton.mp hnew ▸ hvariant
  | still _ => exact h
  | switched fail => exact ⟨h.live, h.held, h.files, h.others⟩
  | swapped proposed hvariant haccept _ _ =>
      obtain ⟨hlive, hfiles⟩ := accept_eq_of_ok haccept
      refine ⟨hlive ▸ hvariant.withVersion _, h.held, fun place hplace => ?_, fun path hpath => ?_⟩
      · have hwritten := Workspace.get?_insertMany_written state.workspace.store.files
          state.workspace.live hvariant.sound (hvariant.frame ▸ hapart)
          (hvariant.frame ▸ hplace)
        simp only [hlive, hfiles]
        refine hwritten.trans ?_
        -- a file that is not written holds the live text, which the proposed one does not change
        split
        · next hsame => exact (h.files place hplace).trans hsame
        · rfl
      · simp only [hfiles]
        rw [Workspace.get?_insertMany_written_of_ne _ hvariant.sound (hvariant.frame ▸ hpath)]
        exact h.others path hpath

theorem Reached.inStep (hlive : start.live.Sound) (hapart : start.live.frame.PathsApart)
    (hfiles : ∀ document ∈ start.live.documents,
      start.store.files.get? document.path = some document.text)
    (h : Reached start state) : InStep start state := by
  induction h with
  | start => exact inStep_start hlive hfiles
  | step _ act hstep ih => exact ih.step hapart hstep

/-- Where the store holds the live texts at the start, it does so forever and nothing else in it
changes; documents, paths and projects stay, and trees are those of the front end. A snapshot that goes
through counts the version up and brings its texts, and an act that fails changes nothing. -/
theorem Reached.store_in_step (hlive : start.live.Sound) (hapart : start.live.frame.PathsApart)
    (hfiles : ∀ document ∈ start.live.documents,
      start.store.files.get? document.path = some document.text)
    (h : Reached start state) :
    (∀ document ∈ state.workspace.live.documents,
      state.workspace.store.files.get? document.path = some document.text ∧
      document = (Document.parse start.live.reader document.id document.path document.text).1) ∧
    (∀ path, (∀ document ∈ start.live.documents, compare path document.path ≠ .eq) →
      state.workspace.store.files.get? path = start.store.files.get? path) ∧
    state.workspace.live.documents.map (fun document => (document.id, document.path)) =
      start.live.documents.map (fun document => (document.id, document.path)) ∧
    state.workspace.live.projects = start.live.projects ∧
    ∀ (act : Act) (reply : Reply) (next : Clients), state.step act = some (reply, next) →
      (∀ index proposed, act = .accept index → state.held[index]? = some proposed →
        reply = .accepted (.ok true) →
        next.workspace.live.version = state.workspace.live.version + 1 ∧
        ∀ id, next.workspace.live.text? id = proposed.text? id) ∧
      (reply.failed = true → next.workspace = state.workspace) := by
  have h := h.inStep hlive hapart hfiles
  have hplaces : state.workspace.live.frame.places = start.live.frame.places :=
    congrArg Solution.Frame.places h.live.frame
  refine ⟨fun document hmem => ⟨?_, ?_⟩, fun path hpath => ?_, hplaces, ?_, ?_⟩
  · have hplace : (document.id, document.path) ∈ start.live.frame.places :=
      hplaces ▸ List.mem_map_of_mem hmem
    rw [← Solution.text?_of_mem h.live.sound.nodup hmem]
    exact h.files (document.id, document.path) hplace
  · rw [← h.live.reader_eq]
    exact h.live.sound.parsed document hmem
  · refine h.others path fun place hplace => ?_
    obtain ⟨document, hmem, rfl⟩ := List.mem_map.mp hplace
    exact hpath document hmem
  · exact congrArg Solution.Frame.projects h.live.frame
  · intro act reply next hstep
    cases h.outcome hstep with
    | kept solution hvariant => simp [Reply.failed]
    | still hreply => exact ⟨fun _ _ _ _ heq => absurd heq hreply, fun _ => rfl⟩
    | switched fail => simp [Reply.failed]
    | swapped proposed hvariant haccept hreply hact =>
        obtain ⟨hnext, -⟩ := accept_eq_of_ok haccept
        refine ⟨fun index other heq hother _ => ?_, fun hfailed => ?_⟩
        · obtain rfl := Option.some.inj ((hact index heq).symm.trans hother)
          rw [hnext]
          exact ⟨rfl, fun _ => rfl⟩
        · rw [hreply] at hfailed
          cases hfailed

theorem Reached.store_in_step_of_edit :
    ∃ (start : Workspace MapStore) (state : Clients),
      start.live.Sound ∧ start.live.frame.PathsApart ∧
      (∀ document ∈ start.live.documents,
        start.store.files.get? document.path = some document.text) ∧
      Reached start state ∧ state.workspace.live.version = 1 ∧
      ∀ document ∈ state.workspace.live.documents,
        state.workspace.store.files.get? document.path = some document.text := by
  let live : Solution :=
    ⟨0, [], [(Document.parse CSharp.reader ⟨0⟩ ⟨"A.cs"⟩ "using B;\n".toList).1], CSharp.reader⟩
  let start : Workspace MapStore := ⟨live, MapStore.insert {} ⟨"A.cs"⟩ "using B;\n".toList⟩
  have hlive : live.Sound := by
    refine ⟨List.nodup_singleton _, fun document hmem => ?_⟩
    rw [List.mem_singleton.mp hmem]
    rfl
  have hapart : live.frame.PathsApart := List.pairwise_singleton ..
  have hfiles : ∀ document ∈ start.live.documents,
      start.store.files.get? document.path = some document.text := by
    intro document hmem
    rw [List.mem_singleton.mp hmem]
    decide +kernel
  obtain ⟨state, hreached, hversion⟩ :
      ∃ state, Reached start state ∧ state.workspace.live.version = 1 :=
    ⟨_, .step (.step (.step .start .look rfl) (.setText 0 ⟨0⟩ "using A;\n".toList) rfl)
      (.accept 1) rfl, rfl⟩
  exact ⟨start, state, hlive, hapart, hfiles, hreached, hversion, fun document hmem =>
    ((hreached.store_in_step hlive hapart hfiles).1 document hmem).1⟩

end Clients

end CSharpTidy
