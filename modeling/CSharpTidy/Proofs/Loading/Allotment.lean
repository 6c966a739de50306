import CSharpTidy.Proofs.Loading.Shares

/-!
# No source is owned twice

However the projects of a solution overlap, each source that the walks come across is one document of
one project or one failure notice: the first project whose walk comes across it has it. A walk passes
over what builds make, so a project below such a directory keeps its sources from the one above.
-/

namespace CSharpTidy

/-- The documents of a project in the order of its list. -/
def Solution.documentsOf (solution : Solution) (project : Project) : List Document :=
  project.documents.filterMap solution.document?

namespace Loading

open FileTree CSharpTidy.Path Sources

variable {walk : Walk} {tree : FileTree} {loading : Loading} {path project target : Path}
  {before paths : List Path} {shares : List Share} {solution : Solution} {notices : List Notice}

/-- The walk for a project comes across a path that has the same steps. -/
def Reaches (tree : FileTree) (project path : Path) : Prop :=
  ∃ other, Spells tree project other ∧ compare other path = .eq

/-- The walk for a project comes across a path, and none for a project before. -/
structure FirstAt (tree : FileTree) (before : List Path) (project path : Path) : Prop where
  spells : Spells tree project path
  first : ∀ earlier ∈ before, ¬Reaches tree earlier path

/-- How sources are dealt out among the projects that could be opened, which may overlap or repeat. -/
structure Allotted (tree : FileTree) (opened : List Path) (solution : Solution)
    (notices : List Notice) : Prop where
  projects : solution.projects.map Project.path = opened
  ids : solution.ids = (List.range solution.documents.length).map DocumentId.mk
  apart : Apart (solution.documents.map Document.path)
  /-- The lists of the projects, one behind the other, have each document once. -/
  owners : solution.projects.flatMap Project.documents = solution.ids
  ascending : ∀ project ∈ solution.projects,
    Ascending ((solution.documentsOf project).map Document.path)
  /-- A project has those of the sources for itself that no project before has come across. -/
  documents : ∀ front project back, solution.projects = front ++ project :: back → ∀ path text,
    (∃ document ∈ solution.documentsOf project, document.path = path ∧ document.text = text) ↔
      FirstAt tree (front.map Project.path) project.path path ∧ tree.read path = .ok text
  /-- A source that cannot be read is no document, and one failure notice names it. -/
  failures : ∀ front project back, solution.projects = front ++ project :: back → ∀ path fault,
    FirstAt tree (front.map Project.path) project.path path → tree.read path = .error fault →
      (∀ document ∈ solution.documents, compare document.path path ≠ .eq) ∧
        (notices.filter fun notice => notice.isFailure && notice.path.any (compare · path == .eq)) =
          [.failure path ("cannot read source file: " ++ fault.message)]

/-! ## Walks -/

theorem isTaken_iff (hwalk : DocumentedWalk walk) (hwell : tree.WellFormed)
    (hbefore : ∀ project ∈ before, isProject project = true ∧ tree.isFile project = true) :
    isTaken walk tree before path = true ↔ ∃ earlier ∈ before, Reaches tree earlier path := by
  rw [isTaken, List.any_eq_true]
  refine exists_congr fun earlier => and_congr_right fun hmem => ?_
  obtain ⟨hproject, hfile⟩ := hbefore earlier hmem
  simp only [isKnown_iff, Reaches, ← mem_all_directory_iff hwalk hwell hproject hfile]

theorem mem_sourcesAfter_iff (hwalk : DocumentedWalk walk) (hwell : tree.WellFormed)
    (hbefore : ∀ project ∈ before, isProject project = true ∧ tree.isFile project = true)
    (hproject : isProject project = true) (hfile : tree.isFile project = true) :
    path ∈ sourcesAfter walk tree before project ↔ FirstAt tree before project path := by
  rw [sourcesAfter, List.mem_filter, mem_all_directory_iff hwalk hwell hproject hfile, Bool.not_eq_true',
    ← Bool.not_eq_true, isTaken_iff hwalk hwell hbefore]
  constructor
  · rintro ⟨hspells, hfirst⟩
    exact ⟨hspells, fun earlier hmem hreaches => hfirst ⟨earlier, hmem, hreaches⟩⟩
  · rintro ⟨hspells, hfirst⟩
    refine ⟨hspells, ?_⟩
    rintro ⟨earlier, hmem, hreaches⟩
    exact hfirst earlier hmem hreaches

/-! ## Projects and their shares -/

theorem Dealt.projectPaths_eq (h : Dealt walk tree shares loading) :
    loading.draft.projects.map Project.path = shares.map Share.project := by
  have hpaths := congrArg (List.map Prod.fst) h.projects
  rwa [List.map_map, List.map_map] at hpaths

theorem Dealt.exists_share (h : Dealt walk tree shares loading) {front back : List Project}
    {project : Project} (hsplit : loading.draft.projects = front ++ project :: back) :
    ∃ share ∈ shares, share.project = project.path ∧
      share.documents.map Document.id = project.documents ∧
      share.Fair walk tree (front.map Project.path) := by
  have hprojects := h.projects
  rw [hsplit, List.map_append, List.map_cons] at hprojects
  obtain ⟨before, rest, rfl, hbefore, hrest⟩ := List.map_eq_append_iff.mp hprojects.symm
  obtain ⟨share, after, rfl, hshare, -⟩ := List.map_eq_cons_iff.mp hrest
  obtain ⟨hpath, hdocuments⟩ := Prod.mk.inj hshare
  refine ⟨share, List.mem_append_right _ List.mem_cons_self, hpath, hdocuments, ?_⟩
  have hpaths : before.map Share.project = front.map Project.path := by
    have := congrArg (List.map Prod.fst) hbefore
    rwa [List.map_map, List.map_map] at this
  rw [← hpaths]
  exact h.fair before share after rfl

theorem Dealt.paths_eq (h : Dealt walk tree shares loading) :
    loading.draft.documents.map Document.path =
      (shares.flatMap Share.sources).filter fun path => (tree.read path).isOk := by
  rw [h.documents, List.map_flatMap, List.filter_flatMap]
  refine List.flatMap_congr fun share hshare => ?_
  obtain ⟨front, back, hsplit⟩ := List.append_of_mem hshare
  exact (h.fair front share back hsplit).readable

theorem Dealt.documentsOf_eq (h : Dealt walk tree shares loading) {share : Share} (hshare : share ∈ shares)
    {project : Project} (hids : share.documents.map Document.id = project.documents) :
    loading.draft.build.1.documentsOf project = share.documents := by
  have hnodup := h.numbered.sound_build.nodup
  have hfound : ∀ document ∈ share.documents,
      loading.draft.build.1.document? document.id = some document := by
    intro document hmem
    refine (Solution.document?_eq_some_iff hnodup).mpr ⟨?_, rfl⟩
    rw [Draft.build, h.documents]
    exact List.mem_flatMap.mpr ⟨share, hshare, hmem⟩
  rw [Solution.documentsOf, ← hids, List.filterMap_map]
  refine (List.filterMap_congr hfound).trans ?_
  exact List.filterMap_some

theorem extension?_congr {other : Path} (h : compare path other = .eq) :
    path.extension? = other.extension? := by
  have hsteps : path.components = other.components := Std.LawfulEqCmp.eq_of_compare h
  rw [extension?, extension?, fileName?, fileName?, hsteps]

theorem filter_failure? (tree : FileTree) (path other : Path) :
    (failure? tree other).filter (fun notice => notice.path.any (compare · path == .eq)) =
      if compare other path == .eq then failure? tree other else none := by
  rw [failure?]
  cases tree.read other with
  | ok text => simp
  | error fault => simp [Option.filter, Notice.failure]

theorem Dealt.filter_notices (h : Dealt walk tree shares loading)
    (hpath : path ∈ shares.flatMap Share.sources) (hextension : path.extension? = some "cs")
    {fault : FileFault} (hread : tree.read path = .error fault) :
    (loading.draft.notices.filter fun notice =>
      notice.isFailure && notice.path.any (compare · path == .eq)) =
        [.failure path ("cannot read source file: " ++ fault.message)] := by
  have hsource : ∀ notice : Notice,
      (notice.isFailure && notice.path.any (compare · path == .eq)) =
        (notice.path.any (compare · path == .eq) && isSourceFailure notice) := by
    intro notice
    rw [isSourceFailure]
    cases notice.path with
    | none => simp
    | some other =>
        by_cases heq : compare other path = .eq
        · simp [heq, extension?_congr heq, hextension]
        · simp [beq_false_of_ne heq]
  calc
    _ = (loading.draft.notices.filter isSourceFailure).filter
          fun notice => notice.path.any (compare · path == .eq) := by
      rw [List.filter_filter]
      exact List.filter_congr fun notice _ => hsource notice
    _ = ((shares.flatMap Share.sources).filter (compare · path == .eq)).filterMap (failure? tree) := by
      rw [h.failures, List.filter_filterMap, List.filterMap_filter]
      exact List.filterMap_congr fun other _ => filter_failure? tree path other
    _ = [.failure path ("cannot read source file: " ++ fault.message)] := by
      rw [h.apart.filter_eq hpath]
      simp [failure?, hread]

theorem Dealt.mem_sources_iff (h : Dealt walk tree shares loading) (hwalk : DocumentedWalk walk)
    (hwell : tree.WellFormed) (hprojects : ∀ project ∈ shares.map Share.project,
      isProject project = true ∧ tree.isFile project = true)
    {front back : List Project} {project : Project}
    (hsplit : loading.draft.projects = front ++ project :: back) {share : Share}
    (hshare : share ∈ shares) (hpath : share.project = project.path)
    (hfair : share.Fair walk tree (front.map Project.path)) :
    path ∈ share.sources ↔ FirstAt tree (front.map Project.path) project.path path := by
  obtain ⟨hproject, hfile⟩ := hprojects share.project (List.mem_map_of_mem hshare)
  rw [hfair.sources, ← hpath]
  refine mem_sourcesAfter_iff hwalk hwell (fun earlier hmem => hprojects earlier ?_) hproject hfile
  rw [← h.projectPaths_eq, hsplit, List.map_append]
  exact List.mem_append_left _ hmem

/-! ## Computing a load -/

theorem addEntry_eq {root directory : Path} {entry : SolutionEntry} {name : String}
    (h : root.join entry.path = project ∧ project.directory = directory ∧
      project.fileStem?.getD "project" = name ∧ isProject project = true ∧ isOpen tree project = true)
    (hall : Sources.all tree directory walk = paths) (loading : Loading) :
    addEntry walk tree root loading entry =
      paths.foldl (addSource tree) { loading with draft := loading.draft.addProject name project } := by
  obtain ⟨hpath, rfl, rfl, hkind, hopen⟩ := h
  obtain ⟨hfile, hread⟩ := Bool.and_eq_true_iff.mp hopen
  rw [addEntry, hpath, hkind, hfile, addProject, hall]
  cases hread' : tree.read project with
  | ok text => rfl
  | error fault =>
      rw [hread'] at hread
      cases hread

theorem all_eq {directory : Path}
    (hpaths : ((((FileTree.walk tree isEntered directory).filterMap Except.toOption).filter
      fun entry => entry.kind == .file).map WalkEntry.path).filter
        (fun path => path.extension? == some "cs") = paths)
    (hsorted : paths.Pairwise fun first second => (compare first second).isLE = true) :
    Sources.all tree directory = paths :=
  (congrArg (List.mergeSort · _) hpaths).trans (List.mergeSort_of_pairwise hsorted)

theorem load_eq {reader : Reader} (root : Path) {text : Text} {entries : List SolutionEntry}
    (h : tree.isFile target = true ∧ target.extension? = some "sln" ∧ target.directory = root)
    (hread : tree.read target = .ok text) (hentries : SolutionEntry.readAll text = entries) :
    load reader tree target walk =
      .ok (entries.foldl (addEntry walk tree root) { draft := { reader } }).draft.build := by
  obtain ⟨hfile, hsolution, rfl⟩ := h
  rw [load, hfile, if_neg (by decide), if_pos hsolution, hread]
  simp only [hentries]

/-- A line of a solution for a project. -/
def entryLine (name path : String) : String :=
  "Project(\"\x7bC\x7d\") = \"" ++ name ++ "\", \"" ++ path ++ "\"\n"

def treeOf (files : List (String × Contents)) : FileTree :=
  files.foldl (fun tree file => tree.addFile ⟨file.1⟩ file.2 FileTree.defaultMode) (.bare ["w".toList])

/-! ## The allotment -/

theorem Dealt.allotted (h : Dealt walk tree shares loading) (hwalk : DocumentedWalk walk)
    (hwell : tree.WellFormed) (hprojects : ∀ project ∈ shares.map Share.project,
      isProject project = true ∧ tree.isFile project = true) :
    Allotted tree (shares.map Share.project) loading.draft.build.1 loading.draft.notices where
  projects := h.projectPaths_eq
  ids := h.numbered.ids
  apart := by
    have happart : Apart (loading.draft.documents.map Document.path) := by
      rw [h.paths_eq]
      exact h.apart.filter _
    exact happart
  owners := by
    have hlists := congrArg (List.flatMap Prod.snd) h.projects
    rw [List.flatMap_map, List.flatMap_map] at hlists
    refine hlists.trans ?_
    rw [Solution.ids, Draft.build, h.documents, List.map_flatMap]
  ascending project hmem := by
    obtain ⟨front, back, hsplit⟩ := List.append_of_mem hmem
    obtain ⟨share, hshare, -, hids, hfair⟩ := h.exists_share hsplit
    rw [h.documentsOf_eq hshare hids, hfair.readable, hfair.sources]
    exact ((Sources.ascending_all hwalk hwell _).filter _).filter _
  documents front project back hsplit path text := by
    obtain ⟨share, hshare, hpath, hids, hfair⟩ := h.exists_share hsplit
    rw [h.documentsOf_eq hshare hids, ← h.mem_sources_iff hwalk hwell hprojects hsplit hshare hpath hfair]
    constructor
    · rintro ⟨document, hmem, rfl, rfl⟩
      have hreadable : document.path ∈ share.documents.map Document.path := List.mem_map_of_mem hmem
      rw [hfair.readable] at hreadable
      exact ⟨(List.mem_filter.mp hreadable).1, hfair.texts document hmem⟩
    · rintro ⟨hsource, hread⟩
      have hreadable : path ∈ share.documents.map Document.path := by
        rw [hfair.readable]
        exact List.mem_filter.mpr ⟨hsource, by rw [hread]; rfl⟩
      obtain ⟨document, hmem, rfl⟩ := List.mem_map.mp hreadable
      exact ⟨document, hmem, rfl, Except.ok.inj ((hfair.texts document hmem).symm.trans hread)⟩
  failures front project back hsplit path fault hfirst hread := by
    obtain ⟨share, hshare, hpath, hids, hfair⟩ := h.exists_share hsplit
    have hsource := (h.mem_sources_iff hwalk hwell hprojects hsplit hshare hpath hfair).mpr hfirst
    have hmem : path ∈ shares.flatMap Share.sources := List.mem_flatMap.mpr ⟨share, hshare, hsource⟩
    refine ⟨fun document hdocument heq => ?_, h.filter_notices hmem
      (Sources.extension?_of_mem_all (h.mem_all hshare hsource)) hread⟩
    have hreadable : document.path ∈ loading.draft.documents.map Document.path :=
      List.mem_map_of_mem hdocument
    rw [h.paths_eq, List.mem_filter] at hreadable
    -- such a document would have the path itself, since no two sources have the same steps
    have hsame : document.path ∈ (shares.flatMap Share.sources).filter (compare · path == .eq) :=
      List.mem_filter.mpr ⟨hreadable.1, beq_iff_eq.mpr heq⟩
    rw [h.apart.filter_eq hmem] at hsame
    rw [List.mem_singleton.mp hsame, hread] at hreadable
    cases hreadable.2

/-- **No source is owned twice.** Once a solution or a project is loaded, the documents are dealt out
among the projects that could be opened, each to the first of them whose walk comes across it. -/
theorem allotted_of_load (hwalk : DocumentedWalk walk) (hwell : tree.WellFormed)
    (h : load CSharp.reader tree target walk = .ok (solution, notices)) :
    Allotted tree ((projects tree target).filter (isOpen tree)) solution notices := by
  obtain ⟨loading, shares, hshares, hdealt, hbuild⟩ := dealt_of_load hwalk hwell h
  obtain rfl : loading.draft.build.1 = solution := congrArg Prod.fst hbuild
  obtain rfl : loading.draft.notices = notices := congrArg Prod.snd hbuild
  rw [← hshares]
  refine hdealt.allotted hwalk hwell fun project hmem => ?_
  rw [hshares, List.mem_filter, isOpen, Bool.and_eq_true] at hmem
  exact ⟨isProject_of_mem_projects hmem.1, hmem.2.1⟩

/-- A solution that names a project twice and one below it in between. Of the two sources that both
come across, one cannot be read. -/
def overlapTree : FileTree :=
  treeOf [("App.sln", .text (entryLine "App" "P/App.csproj" ++ entryLine "Q" "P/Q/Q.csproj" ++
      entryLine "App" "P/App.csproj").toList), ("P/App.csproj", .text []),
    ("P/Q/Q.csproj", .text []), ("P/Q/a.cs", .text []), ("P/Q/b.cs", .binary [0xff])]

theorem allotted_of_overlap :
    DocumentedWalk FileTree.walk ∧ overlapTree.WellFormed ∧ ∃ solution notices,
      load CSharp.reader overlapTree ⟨"App.sln"⟩ = .ok (solution, notices) ∧
      solution.projects.map (fun project => (project.path, project.documents)) =
        [(⟨"P/App.csproj"⟩, [⟨0⟩]), (⟨"P/Q/Q.csproj"⟩, []), (⟨"P/App.csproj"⟩, [])] ∧
      solution.documents.map Document.path = [⟨"P/Q/a.cs"⟩] ∧
      notices.filter Notice.isFailure = [.failure ⟨"P/Q/b.cs"⟩
        "cannot read source file: stream did not contain valid UTF-8"] ∧
      Allotted overlapTree ((projects overlapTree ⟨"App.sln"⟩).filter (isOpen overlapTree)) solution
        notices := by
  have hwell : overlapTree.WellFormed := ⟨by decide +kernel, by decide +kernel, by decide +kernel⟩
  have hentries : SolutionEntry.readAll (entryLine "App" "P/App.csproj" ++
      entryLine "Q" "P/Q/Q.csproj" ++ entryLine "App" "P/App.csproj").toList =
        [⟨"App", ⟨"P/App.csproj"⟩⟩, ⟨"Q", ⟨"P/Q/Q.csproj"⟩⟩, ⟨"App", ⟨"P/App.csproj"⟩⟩] := by
    decide +kernel
  have hwalk : Sources.all overlapTree ⟨"P"⟩ = [⟨"P/Q/a.cs"⟩, ⟨"P/Q/b.cs"⟩] :=
    all_eq (by decide +kernel) (by decide +kernel)
  have hinner : Sources.all overlapTree ⟨"P/Q"⟩ = [⟨"P/Q/a.cs"⟩, ⟨"P/Q/b.cs"⟩] :=
    all_eq (by decide +kernel) (by decide +kernel)
  have happ (loading : Loading) :
      addEntry FileTree.walk overlapTree ⟨""⟩ loading ⟨"App", ⟨"P/App.csproj"⟩⟩ =
        [(⟨"P/Q/a.cs"⟩ : Path), ⟨"P/Q/b.cs"⟩].foldl (addSource overlapTree)
          { loading with draft := loading.draft.addProject "App" ⟨"P/App.csproj"⟩ } :=
    addEntry_eq (by decide +kernel) hwalk loading
  have hq (loading : Loading) :
      addEntry FileTree.walk overlapTree ⟨""⟩ loading ⟨"Q", ⟨"P/Q/Q.csproj"⟩⟩ =
        [(⟨"P/Q/a.cs"⟩ : Path), ⟨"P/Q/b.cs"⟩].foldl (addSource overlapTree)
          { loading with draft := loading.draft.addProject "Q" ⟨"P/Q/Q.csproj"⟩ } :=
    addEntry_eq (by decide +kernel) hinner loading
  have hload : load CSharp.reader overlapTree ⟨"App.sln"⟩ = .ok _ :=
    load_eq ⟨""⟩ (by decide +kernel) rfl hentries
  rw [List.foldl_cons, List.foldl_cons, List.foldl_cons, List.foldl_nil, happ, hq, happ] at hload
  exact ⟨documentedWalk_walk, hwell, _, _, hload, by decide +kernel, by decide +kernel, by decide +kernel,
    allotted_of_load documentedWalk_walk hwell hload⟩

/-- A project below a directory that the walk for another one skips. -/
def skippedTree : FileTree :=
  treeOf [("App.sln", .text (entryLine "App" "P/App.csproj" ++ entryLine "Q" "P/bin/Q/Q.csproj").toList),
    ("P/App.csproj", .text []), ("P/bin/Q/Q.csproj", .text []), ("P/bin/Q/a.cs", .text [])]

/-- A source below the directories of two projects goes to the second where the walk for the first does
not come across it. -/
theorem load_leaves_skipped_to_later : ∃ document notices,
    load CSharp.reader skippedTree ⟨"App.sln"⟩ =
        .ok (⟨0, [⟨"App", ⟨"P/App.csproj"⟩, []⟩, ⟨"Q", ⟨"P/bin/Q/Q.csproj"⟩, [document.id]⟩], [document],
          CSharp.reader⟩, notices) ∧
      document.path = ⟨"P/bin/Q/a.cs"⟩ ∧
      (⟨"P/App.csproj"⟩ : Path).directory.components <+: document.path.components ∧
      (⟨"P/bin/Q/Q.csproj"⟩ : Path).directory.components <+: document.path.components := by
  have hentries : SolutionEntry.readAll
      (entryLine "App" "P/App.csproj" ++ entryLine "Q" "P/bin/Q/Q.csproj").toList =
        [⟨"App", ⟨"P/App.csproj"⟩⟩, ⟨"Q", ⟨"P/bin/Q/Q.csproj"⟩⟩] := by
    decide +kernel
  have hwalk : Sources.all skippedTree ⟨"P"⟩ = [] :=
    all_eq (by decide +kernel) .nil
  have hnested : Sources.all skippedTree ⟨"P/bin/Q"⟩ = [⟨"P/bin/Q/a.cs"⟩] :=
    all_eq (by decide +kernel) (List.pairwise_singleton ..)
  have happ (loading : Loading) :
      addEntry FileTree.walk skippedTree ⟨""⟩ loading ⟨"App", ⟨"P/App.csproj"⟩⟩ =
        { loading with draft := loading.draft.addProject "App" ⟨"P/App.csproj"⟩ } :=
    addEntry_eq (by decide +kernel) hwalk loading
  have hlater (loading : Loading) :
      addEntry FileTree.walk skippedTree ⟨""⟩ loading ⟨"Q", ⟨"P/bin/Q/Q.csproj"⟩⟩ =
        addSource skippedTree
          { loading with draft := loading.draft.addProject "Q" ⟨"P/bin/Q/Q.csproj"⟩ } ⟨"P/bin/Q/a.cs"⟩ :=
    addEntry_eq (by decide +kernel) hnested loading
  have hsource : skippedTree.read ⟨"P/bin/Q/a.cs"⟩ = .ok [] := by decide +kernel
  let parsed := Document.parse CSharp.reader ⟨0⟩ ⟨"P/bin/Q/a.cs"⟩ []
  refine ⟨parsed.1, parsed.2, ?_, rfl, by decide +kernel, by decide +kernel⟩
  rw [load_eq ⟨""⟩ (by decide +kernel) rfl hentries, List.foldl_cons, List.foldl_cons, List.foldl_nil, happ,
    hlater, addSource_of_unknown (by decide), takeSource, hsource]
  rfl

end Loading

end CSharpTidy
