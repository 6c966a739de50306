import CSharpTidy.Proofs.Workspace.Loaded

/-!
# Sources and the projects that take them

Loading walks below the directory of one project after another, and a project takes what none before
it has come across. Within a walk no path comes twice, so what a project takes is settled before its
walk begins: it is the walk without what the projects before have come across.
-/

namespace CSharpTidy

namespace Loading

open CSharpTidy.Path

variable {walk : Walk} {tree : FileTree} {loading : Loading} {path project target : Path}
  {paths : List Path} {draft : Draft}

/-! ## One walk -/

/-- Whether a path is among those that have been come across, under this spelling or another. -/
def isKnown (seen : List Path) (path : Path) : Bool := seen.any fun other => compare other path == .eq

theorem isKnown_iff {seen : List Path} :
    isKnown seen path = true ↔ ∃ other ∈ seen, compare other path = .eq := by
  simp [isKnown]

/-- What becomes of a source that no project has. -/
def takeSource (tree : FileTree) (draft : Draft) (path : Path) : Draft :=
  match tree.read path with
  | .ok text => draft.addDocument path text
  | .error fault =>
      draft.addNotice (.failure path ("cannot read source file: " ++ fault.message))

theorem addSource_of_known (h : isKnown loading.seen path = true) :
    loading.addSource tree path = loading := if_pos h

theorem addSource_of_unknown (h : ¬isKnown loading.seen path = true) :
    loading.addSource tree path = ⟨takeSource tree loading.draft path, path :: loading.seen⟩ := if_neg h

theorem foldl_addSource (h : Apart paths) (loading : Loading) :
    let taken := paths.filter fun path => !isKnown loading.seen path
    paths.foldl (addSource tree) loading =
      ⟨taken.foldl (takeSource tree) loading.draft, taken.reverse ++ loading.seen⟩ := by
  induction paths generalizing loading with
  | nil => rfl
  | cons path paths ih =>
      obtain ⟨hpath, hpaths⟩ := List.pairwise_cons.mp h
      dsimp only at ih ⊢
      rw [List.foldl_cons]
      by_cases hknown : isKnown loading.seen path = true
      · rw [addSource_of_known hknown, ih hpaths, List.filter_cons_of_neg (by simp [hknown])]
      · have hsame : paths.filter (fun other => !isKnown (path :: loading.seen) other) =
            paths.filter fun other => !isKnown loading.seen other := by
          refine List.filter_congr fun other hother => ?_
          have hne : (compare path other == .eq) = false := beq_false_of_ne (hpath other hother)
          rw [isKnown, List.any_cons, hne, Bool.false_or, isKnown]
        rw [addSource_of_unknown hknown, ih hpaths, hsame, List.filter_cons_of_pos (by simp [hknown]),
          List.foldl_cons, List.reverse_cons, List.append_assoc]
        rfl

def isSourceFailure (notice : Notice) : Bool :=
  notice.isFailure && notice.path.any fun path => path.extension? == some "cs"

/-- The notice about a source that cannot be read. -/
def failure? (tree : FileTree) (path : Path) : Option Notice :=
  match tree.read path with
  | .ok _ => none
  | .error fault => some (.failure path ("cannot read source file: " ++ fault.message))

/-- What a draft gains from sources that it takes: a document in the last project for each of those
that can be read, and a failure notice for each of the others. -/
structure Gains (tree : FileTree) (paths : List Path) (added : List Document)
    (draft after : Draft) : Prop where
  reader : after.reader = draft.reader
  documents : after.documents = draft.documents ++ added
  readable : added.map Document.path = paths.filter fun path => (tree.read path).isOk
  texts : ∀ document ∈ added, tree.read document.path = .ok document.text
  projects : after.projects =
    (added.map Document.id).foldl (fun projects id => Draft.extendLast id projects) draft.projects
  failures : after.notices.filter isSourceFailure =
    draft.notices.filter isSourceFailure ++ paths.filterMap (failure? tree)

theorem Gains.refl (tree : FileTree) (draft : Draft) : Gains tree [] [] draft draft :=
  ⟨rfl, (List.append_nil _).symm, rfl, nofun, rfl, (List.append_nil _).symm⟩

theorem Gains.trans {paths paths' : List Path} {added added' : List Document} {between after : Draft}
    (h : Gains tree paths added draft between) (h' : Gains tree paths' added' between after) :
    Gains tree (paths ++ paths') (added ++ added') draft after where
  reader := h'.reader.trans h.reader
  documents := by rw [h'.documents, h.documents, List.append_assoc]
  readable := by rw [List.map_append, h.readable, h'.readable, List.filter_append]
  texts := List.forall_mem_append.mpr ⟨h.texts, h'.texts⟩
  projects := by rw [h'.projects, h.projects, List.map_append, List.foldl_append]
  failures := by rw [h'.failures, h.failures, List.filterMap_append, List.append_assoc]

theorem exists_gains_takeSource (tree : FileTree) (hreader : draft.reader = CSharp.reader)
    (hpath : path.extension? = some "cs") :
    ∃ added, Gains tree [path] added draft (takeSource tree draft path) := by
  rw [takeSource]
  cases hread : tree.read path with
  | ok text =>
      have hquiet : (Document.parse draft.reader ⟨draft.documents.length⟩ path text).2.filter
          isSourceFailure = [] := by
        refine List.filter_eq_nil_iff.mpr fun notice hmem => ?_
        rw [hreader] at hmem
        simp [isSourceFailure, isFailure_of_mem_reader hmem]
      refine ⟨[(Document.parse draft.reader ⟨draft.documents.length⟩ path text).1], rfl, rfl, ?_, ?_,
        rfl, ?_⟩
      · rw [List.filter_cons_of_pos (by rw [hread]; rfl)]
        rfl
      · exact List.forall_mem_singleton.mpr hread
      · have hnotices : (draft.addDocument path text).notices = draft.notices ++
            (Document.parse draft.reader ⟨draft.documents.length⟩ path text).2 := rfl
        rw [hnotices, List.filter_append, hquiet]
        simp [failure?, hread]
  | error fault =>
      refine ⟨[], rfl, (List.append_nil _).symm, ?_, nofun, rfl, ?_⟩
      · rw [List.filter_cons_of_neg (by rw [hread]; exact Bool.false_ne_true)]
        rfl
      · have hnotices : (draft.addNotice
            (.failure path ("cannot read source file: " ++ fault.message))).notices =
              draft.notices ++ [.failure path ("cannot read source file: " ++ fault.message)] := rfl
        rw [hnotices, List.filter_append]
        simp [failure?, hread, isSourceFailure, Notice.failure, Notice.isFailure, hpath]

theorem exists_gains (tree : FileTree) (hreader : draft.reader = CSharp.reader)
    (hpaths : ∀ path ∈ paths, path.extension? = some "cs") :
    ∃ added, Gains tree paths added draft (paths.foldl (takeSource tree) draft) := by
  induction paths generalizing draft with
  | nil => exact ⟨[], .refl tree draft⟩
  | cons path paths ih =>
      obtain ⟨hpath, hpaths⟩ := List.forall_mem_cons.mp hpaths
      obtain ⟨first, hfirst⟩ := exists_gains_takeSource tree hreader hpath
      obtain ⟨rest, hrest⟩ := ih (hfirst.reader.trans hreader) hpaths
      exact ⟨first ++ rest, hfirst.trans hrest⟩

/-! ## One project after another -/

/-- Whether the walk for one of the projects comes across a path, under this spelling or another. -/
def isTaken (walk : Walk) (tree : FileTree) (before : List Path) (path : Path) : Bool :=
  before.any fun project => isKnown (Sources.all tree project.directory walk) path

/-- The sources that are left for a project once those before have taken theirs. -/
def sourcesAfter (walk : Walk) (tree : FileTree) (before : List Path) (project : Path) : List Path :=
  (Sources.all tree project.directory walk).filter fun path => !isTaken walk tree before path

theorem isKnown_append (front back : List Path) (path : Path) :
    isKnown (front ++ back) path = (isKnown front path || isKnown back path) := List.any_append

theorem isTaken_concat (walk : Walk) (tree : FileTree) (before : List Path) (project path : Path) :
    isTaken walk tree (before ++ [project]) path =
      (isTaken walk tree before path || isKnown (Sources.all tree project.directory walk) path) := by
  rw [isTaken, List.any_append, List.any_cons, List.any_nil, Bool.or_false]
  rfl

theorem isKnown_congr {other : Path} (h : compare path other = .eq) (seen : List Path) :
    isKnown seen path = isKnown seen other := by
  have hsame : ∀ first : Path, compare first path = compare first other := fun _ =>
    Std.TransCmp.congr_right h
  simp only [isKnown, hsame]

theorem isTaken_congr {other : Path} (h : compare path other = .eq) (before : List Path) :
    isTaken walk tree before path = isTaken walk tree before other := by
  simp only [isTaken, isKnown_congr h]

theorem isKnown_sourcesAfter (walk : Walk) (tree : FileTree) (before : List Path) (project path : Path) :
    (isKnown (sourcesAfter walk tree before project) path || isTaken walk tree before path) =
      isTaken walk tree (before ++ [project]) path := by
  rw [isTaken_concat, Bool.or_comm]
  cases htaken : isTaken walk tree before path with
  | true => rfl
  | false =>
      rw [Bool.false_or, Bool.false_or, Bool.eq_iff_iff, isKnown_iff, isKnown_iff]
      refine exists_congr fun other => and_congr_left fun heq => ?_
      rw [sourcesAfter, List.mem_filter, isTaken_congr heq, htaken]
      exact and_iff_left rfl

/-- The projects to which a draft hands documents are those before with all of them in the last. -/
theorem foldl_extendLast (projects : List Project) (project : Project) (ids : List DocumentId) :
    ids.foldl (fun projects id => Draft.extendLast id projects) (projects ++ [project]) =
      projects ++ [{ project with documents := project.documents ++ ids }] := by
  have hlast : ∀ (projects : List Project) (project : Project) (id : DocumentId),
      Draft.extendLast id (projects ++ [project]) =
        projects ++ [{ project with documents := project.documents ++ [id] }] := by
    intro projects project id
    induction projects with
    | nil => rfl
    | cons first rest ih =>
        cases rest with
        | nil => rfl
        | cons second rest => exact congrArg (first :: ·) ih
  induction ids generalizing project with
  | nil => rw [List.append_nil]; rfl
  | cons id ids ih =>
      rw [List.foldl_cons, hlast, ih, List.append_assoc]
      rfl

structure Share where
  project : Path
  sources : List Path
  documents : List Document

/-- A project takes what those before have left, and has a document for each source of this that can
be read. -/
structure Share.Fair (walk : Walk) (tree : FileTree) (before : List Path) (share : Share) : Prop where
  sources : share.sources = sourcesAfter walk tree before share.project
  readable : share.documents.map Document.path = share.sources.filter fun path => (tree.read path).isOk
  texts : ∀ document ∈ share.documents, tree.read document.path = .ok document.text

/-- What loading has done so far, given what each of the projects has taken. -/
structure Dealt (walk : Walk) (tree : FileTree) (shares : List Share) (loading : Loading) : Prop where
  numbered : Draft.Numbered CSharp.reader loading.draft
  projects : loading.draft.projects.map (fun project => (project.path, project.documents)) =
    shares.map fun share => (share.project, share.documents.map Document.id)
  documents : loading.draft.documents = shares.flatMap Share.documents
  fair : ∀ front share back, shares = front ++ share :: back →
    share.Fair walk tree (front.map Share.project)
  apart : Apart (shares.flatMap Share.sources)
  seen : ∀ path, isKnown loading.seen path = isTaken walk tree (shares.map Share.project) path
  failures : loading.draft.notices.filter isSourceFailure =
    (shares.flatMap Share.sources).filterMap (failure? tree)

theorem dealt_start (walk : Walk) (tree : FileTree) :
    Dealt walk tree [] { draft := { reader := CSharp.reader } } where
  numbered := Draft.numbered_empty _
  projects := rfl
  documents := rfl
  fair front share back h := by simp at h
  apart := .nil
  seen _ := rfl
  failures := rfl

/-- What a project takes its walk has come across. -/
theorem Dealt.mem_all {shares : List Share} (h : Dealt walk tree shares loading) {share : Share}
    (hshare : share ∈ shares) (hpath : path ∈ share.sources) :
    path ∈ Sources.all tree share.project.directory walk := by
  obtain ⟨front, back, hsplit⟩ := List.append_of_mem hshare
  rw [(h.fair front share back hsplit).sources] at hpath
  exact (List.mem_filter.mp hpath).1

theorem Dealt.refuse {shares : List Share} (h : Dealt walk tree shares loading)
    (hproject : isProject project = true) (message : String) :
    Dealt walk tree shares
      { loading with draft := loading.draft.addNotice (.failure project message) } where
  numbered := h.numbered.addNotice _
  projects := h.projects
  documents := h.documents
  fair := h.fair
  apart := h.apart
  seen := h.seen
  failures := by
    rw [isProject, beq_iff_eq] at hproject
    have hother : isSourceFailure (.failure project message) = false := by
      simp [isSourceFailure, Notice.failure, Notice.isFailure, hproject]
    rw [← h.failures, Draft.addNotice, List.filter_append, List.filter_cons_of_neg (by simp [hother])]
    exact List.append_nil _

theorem fair_concat {shares : List Share} {last : Share}
    (h : ∀ front share back, shares = front ++ share :: back →
      share.Fair walk tree (front.map Share.project))
    (hlast : last.Fair walk tree (shares.map Share.project)) (front : List Share) (share : Share)
    (back : List Share) (heq : shares ++ [last] = front ++ share :: back) :
    share.Fair walk tree (front.map Share.project) := by
  rcases List.eq_nil_or_concat back with rfl | ⟨back, other, rfl⟩
  · obtain ⟨rfl, hshare⟩ := List.append_inj' heq rfl
    rwa [← (List.cons.inj hshare).1]
  · rw [List.concat_eq_append, ← List.cons_append, ← List.append_assoc] at heq
    exact h front share back (List.append_inj' heq rfl).1

theorem Dealt.open {shares : List Share} (h : Dealt walk tree shares loading)
    (hwalk : DocumentedWalk walk) (hwell : tree.WellFormed) {text : Text}
    (hread : tree.read project = .ok text) :
    ∃ share : Share, share.project = project ∧
      Dealt walk tree (shares ++ [share]) (loading.addProject walk tree project) := by
  have hnumbered : Draft.Numbered CSharp.reader (loading.addProject walk tree project).draft :=
    numbered_addProject h.numbered project
  let draft := loading.draft.addProject (project.fileStem?.getD "project") project
  let sources := sourcesAfter walk tree (shares.map Share.project) project
  -- what has been seen is what the walks for the projects before come across
  have hsources : (Sources.all tree project.directory walk).filter
      (fun path => !isKnown loading.seen path) = sources := by
    refine List.filter_congr fun path _ => ?_
    rw [h.seen]
  have hloading : loading.addProject walk tree project =
      ⟨sources.foldl (takeSource tree) draft, sources.reverse ++ loading.seen⟩ := by
    rw [addProject, hread, ← hsources]
    exact foldl_addSource (Sources.ascending_all hwalk hwell _).apart { loading with draft }
  have hextension : ∀ path ∈ sources, path.extension? = some "cs" := fun path hmem =>
    Sources.extension?_of_mem_all (List.mem_filter.mp hmem).1
  have hreader : draft.reader = CSharp.reader := h.numbered.reader_eq
  obtain ⟨added, hgains⟩ := exists_gains tree hreader hextension
  have hprojects := hgains.projects.trans (foldl_extendLast loading.draft.projects
    ⟨project.fileStem?.getD "project", project, []⟩ (added.map Document.id))
  rw [hloading] at hnumbered ⊢
  refine ⟨⟨project, sources, added⟩, rfl, ?_⟩
  constructor
  case numbered => exact hnumbered
  case projects =>
    rw [hprojects, List.map_append, h.projects, List.map_append]
    rfl
  case documents =>
    rw [hgains.documents, List.flatMap_append, ← h.documents]
    exact congrArg (loading.draft.documents ++ ·) (List.append_nil added).symm
  case fair => exact fair_concat h.fair ⟨rfl, hgains.readable, hgains.texts⟩
  case apart =>
    rw [List.flatMap_append, List.flatMap_singleton]
    refine List.pairwise_append.mpr
      ⟨h.apart, (Sources.ascending_all hwalk hwell _).apart.filter _, fun path hpath other hother heq => ?_⟩
    obtain ⟨share, hshare, hpath⟩ := List.mem_flatMap.mp hpath
    -- a source that an earlier project took has been left out here
    have htaken : isTaken walk tree (shares.map Share.project) other = true :=
      List.any_eq_true.mpr ⟨share.project, List.mem_map_of_mem hshare,
        isKnown_iff.mpr ⟨path, h.mem_all hshare hpath, heq⟩⟩
    have hleft := (List.mem_filter.mp hother).2
    rw [htaken] at hleft
    cases hleft
  case seen =>
    intro path
    have hreverse : isKnown sources.reverse path = isKnown sources path := List.any_reverse
    rw [isKnown_append, hreverse, h.seen, isKnown_sourcesAfter, List.map_append]
    rfl
  case failures =>
    rw [hgains.failures, List.flatMap_append, List.filterMap_append, ← h.failures]
    exact congrArg (_ ++ List.filterMap _ ·) (List.append_nil sources).symm

/-! ## The whole load -/

section

variable {solution : Solution} {notices : List Notice}

theorem Dealt.visits {projects : List Path} {shares : List Share} {after : Loading}
    (h : Dealt walk tree shares loading) (hwalk : DocumentedWalk walk) (hwell : tree.WellFormed)
    (hprojects : ∀ project ∈ projects, isProject project = true)
    (hvisits : Visits walk tree projects loading after) :
    ∃ shares', shares'.map Share.project = projects.filter (isOpen tree) ∧
      Dealt walk tree (shares ++ shares') after := by
  induction hvisits generalizing shares with
  | nil => exact ⟨[], rfl, by rwa [List.append_nil]⟩
  | @opened project _ _ _ _ hfile hread _ ih =>
      obtain ⟨share, hproject, hshare⟩ := h.open hwalk hwell hread
      obtain ⟨shares', hshares', hdealt⟩ := ih hshare (List.forall_mem_cons.mp hprojects).2
      have hopen : isOpen tree project = true := by rw [isOpen, hfile, hread]; rfl
      refine ⟨share :: shares', ?_, by rwa [List.append_cons]⟩
      rw [List.map_cons, hproject, hshares', List.filter_cons_of_pos hopen]
  | refused hclosed _ ih =>
      obtain ⟨hproject, hprojects⟩ := List.forall_mem_cons.mp hprojects
      rw [List.filter_cons_of_neg (by simp [hclosed])]
      exact ih (h.refuse hproject _) hprojects

/-- What a solution and its projects are loaded with is dealt out among the projects. -/
theorem dealt_of_load (hwalk : DocumentedWalk walk) (hwell : tree.WellFormed)
    (h : load CSharp.reader tree target walk = .ok (solution, notices)) :
    ∃ loading shares, shares.map Share.project = (projects tree target).filter (isOpen tree) ∧
      Dealt walk tree shares loading ∧ loading.draft.build = (solution, notices) := by
  obtain ⟨loading, hvisits, hbuild⟩ := exists_visits_of_load h
  obtain ⟨shares, hshares, hdealt⟩ := (dealt_start walk tree).visits hwalk hwell
    (fun project hmem => isProject_of_mem_projects hmem) hvisits
  exact ⟨loading, shares, hshares, hdealt, hbuild⟩

end

end Loading

end CSharpTidy
