import CSharpTidy.Proofs.Workspace.Report

/-!
# Commits in two steps

A commit makes its snapshot the live one under one lock and reads the version for its report under another.
Between the two steps other clients may commit. So a report names the version that its commit made just where
it is read before the next one comes.
-/

namespace CSharpTidy

/-- A commit whose snapshot has become the live one, with its report once that has been read. -/
structure Landed where
  /-- The version that the snapshot has got. -/
  version : Nat
  changed : List DocumentId
  report? : Option Commit := none
deriving DecidableEq, Repr

namespace Landed

/-- The report has the version of the commit, if it has been read. -/
def Exact (landed : Landed) : Prop :=
  ∀ report, landed.report? = some report → report.version = landed.version

/-- Reads the report while `live` is the live version. A report is read once. -/
def read (live : Nat) (landed : Landed) : Landed :=
  match landed.report? with
  | none => { landed with report? := some ⟨live, landed.changed⟩ }
  | some _ => landed

/-- What holds of the commit that came through after `place` others, over a workspace that began with the
version `first`. -/
structure Counted (first place : Nat) (landed : Landed) : Prop where
  version : landed.version = first + place + 1
  report : ∀ report, landed.report? = some report →
    report.changed = landed.changed ∧ landed.version ≤ report.version

variable {landed : Landed} {first place live : Nat}

theorem Counted.read (h : Counted first place landed) (hle : landed.version ≤ live) :
    Counted first place (landed.read live) := by
  rw [Landed.read]
  split
  · refine ⟨h.version, fun report hreport => ?_⟩
    obtain rfl := Option.some.inj hreport
    exact ⟨rfl, hle⟩
  · exact h

/-- A report is exact if it has been read and was exact, or is read while its commit is live. -/
theorem exact_read_iff : (landed.read live).Exact ↔
    landed.Exact ∧ (landed.report?.isSome = true ∨ live = landed.version) := by
  rw [read]
  split
  · next hnone => simp [Exact, hnone]
  · next hsome => simp [hsome]

end Landed

/-- A workspace, what its clients hold, and the commits that have gone through so far, in the order in which
they did. Nothing is said about which client takes which step, so there may be any number of them. -/
structure Committers (σ : Type) where
  workspace : Workspace σ
  held : List Solution := []
  staged : List Staging := []
  landed : List Landed := []

namespace Committers

variable {σ : Type} [Store σ]

/-- What a client can do next. What is held, staged or has gone through is named by its place. -/
inductive Step where
  | look
  | stage (index : Nat) (changes : Changes)
  /-- Swaps the live snapshot for a staged one. -/
  | swap (index : Nat)
  /-- Reads the report of a commit that has gone through. -/
  | read (index : Nat)

def step (state : Committers σ) : Step → Committers σ
  | .look => { state with held := state.held ++ [state.workspace.live] }
  | .stage index changes =>
      match state.held[index]?.map fun base => CSharpTidy.stage base changes with
      | some (.ok staged) => { state with staged := state.staged ++ [staged] }
      | _ => state
  | .swap index =>
      match state.staged[index]? with
      | none => state
      | some staged =>
          if staged.changed = [] then state
          else
            match state.workspace.accept staged.solution with
            | (.ok true, workspace) =>
                { state with
                  workspace
                  landed := state.landed ++ [⟨workspace.live.version, staged.changed, none⟩] }
            | (_, workspace) => { state with workspace }
  | .read index =>
      { state with landed := state.landed.modify index (Landed.read state.workspace.live.version) }

def run (state : Committers σ) (steps : List Step) : Committers σ := steps.foldl step state

/-- Whether a step reads no report, or one of the last commit to go through. -/
def inTime (state : Committers σ) : Step → Bool
  | .read index =>
      (state.landed[index]?.all fun landed => landed.report?.isSome) || index + 1 == state.landed.length
  | _ => true

def prompt : Committers σ → List Step → Bool
  | _, [] => true
  | state, step :: steps => state.inTime step && prompt (state.step step) steps

variable {start : Workspace σ} {state next : Committers σ} {first place : Nat} {landed : Landed}

/-- What a step can do to the live version and to the commits. -/
theorem step_cases (state : Committers σ) (step : Step) :
    ((state.step step).workspace.live.version = state.workspace.live.version ∧
        (state.step step).landed = state.landed ∧ state.inTime step = true) ∨
      (∃ changed,
        (state.step step).workspace.live.version = state.workspace.live.version + 1 ∧
        (state.step step).landed =
          state.landed ++ [⟨state.workspace.live.version + 1, changed, none⟩] ∧
        state.inTime step = true) ∨
      ∃ index, step = .read index := by
  cases step with
  | look => exact .inl ⟨rfl, rfl, rfl⟩
  | stage index changes =>
      rw [Committers.step]
      split
      · exact .inl ⟨rfl, rfl, rfl⟩
      · exact .inl ⟨rfl, rfl, rfl⟩
  | swap index =>
      rw [Committers.step]
      split
      · exact .inl ⟨rfl, rfl, rfl⟩
      · next staged _ =>
          split
          · exact .inl ⟨rfl, rfl, rfl⟩
          · rcases state.workspace.accept_cases staged.solution with
              ⟨-, haccept⟩ | ⟨-, ⟨fault, store, -, haccept⟩ | ⟨store, -, haccept⟩⟩
            · rw [haccept]
              exact .inl ⟨rfl, rfl, rfl⟩
            · rw [haccept]
              exact .inl ⟨rfl, rfl, rfl⟩
            · rw [haccept]
              exact .inr (.inl ⟨staged.changed, rfl, rfl, rfl⟩)
  | read index => exact .inr (.inr ⟨index, rfl⟩)

/-! ## Versions are counted -/

/-- What every step keeps, over a workspace that began with a version. -/
structure Numbered (first : Nat) (state : Committers σ) : Prop where
  live : state.workspace.live.version = first + state.landed.length
  counted : ∀ (place : Nat) (landed : Landed), state.landed[place]? = some landed →
    landed.Counted first place

omit [Store σ] in
theorem Numbered.version_le (h : Numbered first state) (hlanded : state.landed[place]? = some landed) :
    landed.version ≤ state.workspace.live.version := by
  have hlt := (List.getElem?_eq_some_iff.mp hlanded).1
  have hversion := (h.counted place landed hlanded).version
  have hlive := h.live
  omega

theorem getElem?_step_read (state : Committers σ) (index place : Nat) :
    (state.step (.read index)).landed[place]? = state.landed[place]?.map fun landed =>
      if index = place then landed.read state.workspace.live.version else landed :=
  List.getElem?_modify ..

theorem Numbered.step (h : Numbered first state) (step : Step) : Numbered first (state.step step) := by
  rcases state.step_cases step with ⟨hlive, hlanded, -⟩ | ⟨changed, hlive, hlanded, -⟩ | ⟨index, rfl⟩
  · exact ⟨hlive ▸ hlanded ▸ h.live, hlanded ▸ h.counted⟩
  · refine ⟨?_, fun place landed hplace => ?_⟩
    · rw [hlive, hlanded, List.length_append, h.live]
      rfl
    · rw [hlanded, List.getElem?_append] at hplace
      split at hplace
      · exact h.counted place landed hplace
      · next hbehind =>
          obtain ⟨hlast, hnew⟩ := Option.ite_none_right_eq_some.mp (List.getElem?_singleton ▸ hplace)
          obtain rfl := Option.some.inj hnew
          have hlength := h.live
          exact ⟨by simp only; omega, by simp⟩
  · refine ⟨?_, fun place landed hplace => ?_⟩
    · rw [Committers.step, List.length_modify]
      exact h.live
    · rw [getElem?_step_read] at hplace
      obtain ⟨old, hold, rfl⟩ := Option.map_eq_some_iff.mp hplace
      have hcounted := h.counted place old hold
      split
      · exact hcounted.read (h.version_le hold)
      · exact hcounted

theorem Numbered.exact_step_read_iff (h : Numbered first state) (index : Nat) :
    (∀ landed ∈ (state.step (.read index)).landed, landed.Exact) ↔
      (∀ landed ∈ state.landed, landed.Exact) ∧ state.inTime (.read index) = true := by
  rcases Nat.lt_or_ge index state.landed.length with hindex | hindex
  · obtain ⟨front, old, back, hcut, hfront, hread⟩ :=
      List.exists_of_modify (Landed.read state.workspace.live.version) hindex
    have hold : state.landed[index]? = some old := by
      rw [hcut, ← hfront, List.getElem?_append_right (Nat.le_refl _), Nat.sub_self]
      rfl
    have hversion := (h.counted index old hold).version
    have hlive := h.live
    -- the live version is that of the last commit
    have hlast : state.workspace.live.version = old.version ↔ index + 1 = state.landed.length := by
      omega
    have htime : state.inTime (.read index) = true ↔
        old.report?.isSome = true ∨ index + 1 = state.landed.length := by
      simp [inTime, hold]
    change (∀ landed ∈ state.landed.modify index _, landed.Exact) ↔ _
    rw [hread, htime, ← hlast, hcut]
    simp only [List.forall_mem_append, List.forall_mem_cons, Landed.exact_read_iff]
    tauto
  · have hnone : state.landed[index]? = none := List.getElem?_eq_none hindex
    have hsame : (state.step (.read index)).landed = state.landed := List.modify_eq_self hindex
    simp [hsame, inTime, hnone]

theorem Numbered.exact_step_iff (h : Numbered first state) (step : Step) :
    (∀ landed ∈ (state.step step).landed, landed.Exact) ↔
      (∀ landed ∈ state.landed, landed.Exact) ∧ state.inTime step = true := by
  rcases state.step_cases step with ⟨-, hlanded, htime⟩ | ⟨changed, -, hlanded, htime⟩ | ⟨index, rfl⟩
  · simp [hlanded, htime]
  · have hnew : Landed.Exact ⟨state.workspace.live.version + 1, changed, none⟩ := by
      simp [Landed.Exact]
    simp [hlanded, htime, or_imp, forall_and, hnew]
  · exact h.exact_step_read_iff index

/-! ## Runs -/

theorem Numbered.run (h : Numbered first state) (steps : List Step) :
    Numbered first (state.run steps) := by
  induction steps generalizing state with
  | nil => exact h
  | cons step steps ih => exact ih (h.step step)

theorem Numbered.exact_run_iff (h : Numbered first state) (steps : List Step) :
    (∀ landed ∈ (state.run steps).landed, landed.Exact) ↔
      (∀ landed ∈ state.landed, landed.Exact) ∧ prompt state steps = true := by
  induction steps generalizing state with
  | nil => simp [Committers.run, prompt]
  | cons step steps ih =>
      rw [Committers.run, List.foldl_cons]
      refine (ih (h.step step)).trans ?_
      rw [h.exact_step_iff step, prompt, Bool.and_eq_true, and_assoc]

omit [Store σ] in
theorem numbered_start (start : Workspace σ) :
    Numbered start.live.version ({ workspace := start } : Committers σ) :=
  ⟨rfl, by simp⟩

omit [Store σ] in
theorem Numbered.pairwise (h : Numbered first state) :
    state.landed.Pairwise fun earlier later => earlier.version < later.version := by
  refine List.pairwise_iff_getElem.mpr fun place place' hplace hplace' hlt => ?_
  have hearlier := (h.counted place _ (List.getElem?_eq_getElem hplace)).version
  have hlater := (h.counted place' _ (List.getElem?_eq_getElem hplace')).version
  omega

omit [Store σ] in
theorem Numbered.pairwise_report (h : Numbered first state)
    (hexact : ∀ landed ∈ state.landed, landed.Exact) :
    (state.landed.filterMap Landed.report?).Pairwise fun earlier later =>
      earlier.version < later.version := by
  rw [List.pairwise_filterMap]
  refine h.pairwise.imp_of_mem fun hearlier hlater hlt report hreport report' hreport' => ?_
  rw [hexact _ hearlier report hreport, hexact _ hlater report' hreport']
  exact hlt

/-- A report that is read names the version of its commit, counted up by the commits that have gone through
since. -/
theorem Numbered.read_eq (h : Numbered first state) (hlanded : state.landed[place]? = some landed)
    (hnone : landed.report? = none) :
    (state.step (.read place)).landed[place]? = some { landed with
      report? := some ⟨landed.version + (state.landed.length - (place + 1)), landed.changed⟩ } := by
  have hlt := (List.getElem?_eq_some_iff.mp hlanded).1
  have hversion := (h.counted place landed hlanded).version
  have hlive : state.workspace.live.version =
      landed.version + (state.landed.length - (place + 1)) := by
    have := h.live
    omega
  rw [getElem?_step_read, hlanded, Option.map_some, if_pos rfl, Landed.read, hnone, hlive]

/-- The two steps of a commit in one go do what it does by itself. -/
theorem run_of_commit {index : Nat} {staged : Staging} {report : Commit} {after : Workspace σ}
    (hstaged : state.staged[index]? = some staged) (hchanged : staged.changed ≠ [])
    (hcommit : state.workspace.commit staged = (.ok report, after)) :
    state.run [.swap index, .read state.landed.length] =
      { state with
        workspace := after
        landed := state.landed ++ [⟨report.version, report.changed, some report⟩] } := by
  rcases state.workspace.commit_cases staged with
    ⟨hnone, -⟩ | ⟨-, ⟨haccept, hcommit'⟩ | ⟨-, reason, hcommit'⟩⟩
  · exact absurd hnone hchanged
  · obtain ⟨hreport, rfl⟩ := Prod.mk.inj (hcommit.symm.trans hcommit')
    obtain rfl := Except.ok.inj hreport
    have hswap : state.step (.swap index) =
        { state with
          workspace := (state.workspace.accept staged.solution).2
          landed := state.landed ++
            [⟨(state.workspace.accept staged.solution).2.live.version, staged.changed, none⟩] } := by
      have haccepted : state.workspace.accept staged.solution =
          (.ok true, (state.workspace.accept staged.solution).2) := Prod.ext haccept rfl
      rw [step, hstaged]
      simp only [if_neg hchanged]
      rw [haccepted]
    rw [Committers.run, List.foldl_cons, hswap]
    simp [step, Landed.read, List.modify_eq_take_drop]
  · rw [hcommit'] at hcommit
    cases (Prod.mk.inj hcommit).1

/-- **What reports say.** Whoever commits when, the versions that commits make count up from the first one. A
report names the version of its commit, counted up by the commits that go through before it is read. So all
reports name the versions of their commits just where each is read before another commit goes through, and
then no two name the same. -/
theorem reports_exact_iff (start : Workspace σ) (steps : List Step) :
    (∀ (place : Nat) (landed : Landed),
      (run { workspace := start } steps).landed[place]? = some landed →
        landed.version = start.live.version + place + 1 ∧
        (landed.report? = none →
          ((run { workspace := start } steps).step (.read place)).landed[place]? = some { landed with
            report? := some
              ⟨landed.version + ((run { workspace := start } steps).landed.length - (place + 1)),
                landed.changed⟩ }) ∧
        ∀ report, landed.report? = some report →
          report.changed = landed.changed ∧ landed.version ≤ report.version) ∧
    ((∀ landed ∈ (run { workspace := start } steps).landed, landed.Exact) ↔
      prompt { workspace := start } steps = true) ∧
    (prompt { workspace := start } steps = true →
      ((run { workspace := start } steps).landed.filterMap Landed.report?).Pairwise
        fun earlier later => earlier.version < later.version) := by
  have hnumbered := (numbered_start start).run steps
  have hexact := (numbered_start start).exact_run_iff steps
  simp only [List.not_mem_nil, false_implies, implies_true, true_and] at hexact
  refine ⟨fun place landed hlanded => ?_, hexact, fun hprompt => ?_⟩
  · have hcounted := hnumbered.counted place landed hlanded
    exact ⟨hcounted.version, hnumbered.read_eq hlanded, hcounted.report⟩
  · exact hnumbered.pairwise_report (hexact.mpr hprompt)

/-- Two clients commit, one after the other, and only the second one has read its report. -/
theorem reports_exact_of_overtaken :
    ∃ (steps : List Step) (first second : Landed),
      (run { workspace := Workspace.twoFiles } steps).landed = [first, second] ∧
      prompt { workspace := Workspace.twoFiles } steps = true ∧
      first.version = 1 ∧ second.version = 2 ∧
      first.report? = none ∧ second.report? = some ⟨2, [⟨1⟩]⟩ ∧ first.Exact ∧ second.Exact ∧
      ((run { workspace := Workspace.twoFiles } steps).step (.read 0)).landed[0]? =
        some ⟨1, [⟨0⟩], some ⟨2, [⟨0⟩]⟩⟩ := by
  let steps : List Step :=
    [.look, .stage 0 ⟨[(⟨0⟩, "using X;\n".toList)]⟩, .swap 0,
      .look, .stage 1 ⟨[(⟨1⟩, "using Y;\n".toList)]⟩, .swap 1, .read 1]
  have hlanded : (run { workspace := Workspace.twoFiles } steps).landed =
      [⟨1, [⟨0⟩], none⟩, ⟨2, [⟨1⟩], some ⟨2, [⟨1⟩]⟩⟩] := by
    decide +kernel
  have hprompt : prompt { workspace := Workspace.twoFiles } steps = true := by
    decide +kernel
  obtain ⟨hreports, hexact, -⟩ := reports_exact_iff Workspace.twoFiles steps
  have hall := hexact.mpr hprompt
  have hread := (hreports 0 ⟨1, [⟨0⟩], none⟩ (by rw [hlanded]; rfl)).2.1 rfl
  rw [hlanded] at hall
  refine ⟨steps, _, _, hlanded, hprompt, rfl, rfl, rfl, rfl, hall _ (by simp), hall _ (by simp), ?_⟩
  rw [hread, hlanded]
  rfl

/-- The first of two commits has its report read after the second one has gone through. Both reports name the
version of the second. -/
theorem reports_share_version :
    ∃ (steps : List Step) (first second : Landed),
      (run { workspace := Workspace.twoFiles } steps).landed = [first, second] ∧
      first.version = 1 ∧ second.version = 2 ∧
      first.report? = some ⟨2, [⟨0⟩]⟩ ∧ second.report? = some ⟨2, [⟨1⟩]⟩ ∧ ¬first.Exact := by
  refine ⟨[.look, .stage 0 ⟨[(⟨0⟩, "using X;\n".toList)]⟩, .swap 0,
    .look, .stage 1 ⟨[(⟨1⟩, "using Y;\n".toList)]⟩, .swap 1, .read 1, .read 0],
    ⟨1, [⟨0⟩], some ⟨2, [⟨0⟩]⟩⟩, ⟨2, [⟨1⟩], some ⟨2, [⟨1⟩]⟩⟩, ?_, rfl, rfl, rfl, rfl, fun hexact => ?_⟩
  · decide +kernel
  · exact absurd (hexact _ rfl) (by decide)

end Committers

end CSharpTidy
