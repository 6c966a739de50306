import CSharpTidy.Loading.Load
import CSharpTidy.Proofs.Loading.Sources

/-!
# Loading passes over no source

Every path that loading comes across ends up as a document or in a failure notice, and documents come
from nowhere else. A path that is passed over because an earlier project has it leads to the place of
the earlier one. What remains is to see that the walks below the directories of the projects come
across all of their sources.
-/

namespace CSharpTidy

namespace Loading

open FileTree CSharpTidy.Path Sources

variable {reader : Reader} {walk : Walk} {tree : FileTree} {loading : Loading}
  {path project target root : Path}
  {walked refused paths : List Path} {documents documents' : List Document}
  {notices notices' : List Notice} {place : Place}

/-! ## What becomes of a file -/

/-- A failure notice names the path. -/
def Reported (notices : List Notice) (path : Path) : Prop :=
  ∃ notice ∈ notices, notice.isFailure = true ∧ notice.path = some path

/-- The file in a place is a document, or a failure notice names it. -/
def Accounted (tree : FileTree) (documents : List Document) (notices : List Notice)
    (place : Place) : Prop :=
  (∃ document ∈ documents, tree.placeOf document.path = place) ∨
    ∃ path, Reported notices path ∧ tree.placeOf path = place

theorem Reported.mono (h : Reported notices path) (hnotices : notices ⊆ notices') :
    Reported notices' path := by
  obtain ⟨notice, hmem, hnotice⟩ := h
  exact ⟨notice, hnotices hmem, hnotice⟩

theorem Accounted.mono (h : Accounted tree documents notices place)
    (hdocuments : documents ⊆ documents') (hnotices : notices ⊆ notices') :
    Accounted tree documents' notices' place := by
  rcases h with ⟨document, hmem, hplace⟩ | ⟨path, hreported, hplace⟩
  · exact .inl ⟨document, hdocuments hmem, hplace⟩
  · exact .inr ⟨path, hreported.mono hnotices, hplace⟩

theorem reported_addNotice (draft : Draft) (path : Path) (message : String) :
    Reported (draft.addNotice (.failure path message)).notices path :=
  ⟨.failure path message, List.mem_append_right _ (List.mem_singleton_self _), rfl, rfl⟩

/-! ## The invariant -/

theorem isFailure_of_mem_reader {text : Text} {notice : Notice}
    (h : notice ∈ (CSharp.reader path text).notices) : notice.isFailure = false := by
  have hlate : ∀ notice ∈ (CSharp.read text).1.map (lateDirectiveNotice path),
      notice.isFailure = false := by
    intro notice hmem
    obtain ⟨name, -, rfl⟩ := List.mem_map.mp hmem
    rfl
  rw [CSharp.reader] at h
  cases hresult : (CSharp.read text).2 with
  | ok tree =>
      simp only [hresult] at h
      exact hlate notice h
  | error fault =>
      simp only [hresult] at h
      rcases List.mem_append.mp h with hmem | hfault
      · exact hlate notice hmem
      · rw [List.mem_singleton.mp hfault]
        rfl

/-- What loading has done so far, given the sources that it has come across and the projects that it
could not open. -/
structure Accounts (tree : FileTree) (walked refused : List Path) (loading : Loading) : Prop where
  reader : loading.draft.reader = CSharp.reader
  seen : ∀ path ∈ loading.seen,
    Accounted tree loading.draft.documents loading.draft.notices (tree.placeOf path)
  sources : ∀ path ∈ walked,
    Accounted tree loading.draft.documents loading.draft.notices (tree.placeOf path)
  documents : ∀ document ∈ loading.draft.documents, document.path ∈ walked
  reports : ∀ project ∈ refused, Reported loading.draft.notices project
  failures : ∀ path, Reported loading.draft.notices path → path ∈ walked ∨ path ∈ refused

theorem accounts_start (tree : FileTree) :
    Accounts tree [] [] { draft := { reader := CSharp.reader } } where
  reader := rfl
  seen := nofun
  sources := nofun
  documents := nofun
  reports := nofun
  failures := by
    rintro path ⟨notice, hmem, -⟩
    cases hmem

/-- What is added to a draft for a source makes up for the source, and for nothing else. -/
theorem Accounts.source (h : Accounts tree walked refused loading) {draft : Draft}
    (hreader : draft.reader = loading.draft.reader)
    (hdocuments : loading.draft.documents ⊆ draft.documents)
    (hnotices : loading.draft.notices ⊆ draft.notices)
    (hnew : ∀ document ∈ draft.documents,
      document ∈ loading.draft.documents ∨ document.path = path)
    (hfailures : ∀ other, Reported draft.notices other →
      Reported loading.draft.notices other ∨ other = path)
    (hpath : Accounted tree draft.documents draft.notices (tree.placeOf path)) :
    Accounts tree (walked ++ [path]) refused ⟨draft, path :: loading.seen⟩ where
  reader := hreader.trans h.reader
  seen := by
    refine List.forall_mem_cons.mpr ⟨hpath, fun other hmem => ?_⟩
    exact (h.seen other hmem).mono hdocuments hnotices
  sources := by
    refine List.forall_mem_append.mpr ⟨fun other hmem => ?_, List.forall_mem_singleton.mpr hpath⟩
    exact (h.sources other hmem).mono hdocuments hnotices
  documents document hmem := by
    rcases hnew document hmem with hold | rfl
    · exact List.mem_append_left _ (h.documents document hold)
    · exact List.mem_append_right _ (List.mem_singleton_self _)
  reports project hmem := (h.reports project hmem).mono hnotices
  failures other hreported := by
    rcases hfailures other hreported with hold | rfl
    · exact (h.failures other hold).imp_left (List.mem_append_left _)
    · exact .inl (List.mem_append_right _ (List.mem_singleton_self _))

/-- What the notices of a reader report was reported before. -/
theorem reported_of_append_reader {text : Text} {other : Path}
    (h : Reported (notices ++ (CSharp.reader path text).notices) other) : Reported notices other := by
  obtain ⟨notice, hmem, hfailure, hpath⟩ := h
  rcases List.mem_append.mp hmem with hold | hnew
  · exact ⟨notice, hold, hfailure, hpath⟩
  · rw [isFailure_of_mem_reader hnew] at hfailure
    cases hfailure

theorem reported_of_addNotice {draft : Draft} {message : String} {other : Path}
    (h : Reported (draft.addNotice (.failure path message)).notices other) :
    Reported draft.notices other ∨ other = path := by
  obtain ⟨notice, hmem, hfailure, hpath⟩ := h
  rcases List.mem_append.mp hmem with hold | hnew
  · exact .inl ⟨notice, hold, hfailure, hpath⟩
  · rw [List.mem_singleton.mp hnew] at hpath
    exact .inr (Option.some.inj hpath).symm

theorem Accounts.addSource (h : Accounts tree walked refused loading) (path : Path) :
    Accounts tree (walked ++ [path]) refused (loading.addSource tree path) := by
  rw [Loading.addSource]
  by_cases hseen : (loading.seen.any fun other => compare other path == .eq) = true
  · rw [if_pos hseen]
    obtain ⟨other, hother, heq⟩ := List.any_eq_true.mp hseen
    refine ⟨h.reader, h.seen, ?_,
      fun document hmem => List.mem_append_left _ (h.documents document hmem), h.reports,
      fun other hreported => (h.failures other hreported).imp_left (List.mem_append_left _)⟩
    refine List.forall_mem_append.mpr ⟨h.sources, List.forall_mem_singleton.mpr ?_⟩
    rw [← placeOf_eq_of_compare (beq_iff_eq.mp heq)]
    exact h.seen other hother
  · rw [if_neg hseen]
    cases tree.read path with
    | ok text =>
        have hlast := List.mem_append_right loading.draft.documents (List.mem_singleton_self
          (Document.parse loading.draft.reader ⟨loading.draft.documents.length⟩ path text).1)
        refine h.source rfl (List.subset_append_left ..) (List.subset_append_left ..) ?_ ?_
          (.inl ⟨_, hlast, rfl⟩)
        · intro document hmem
          refine (List.mem_append.mp hmem).imp_right fun hnew => ?_
          rw [List.mem_singleton.mp hnew]
        · intro other hreported
          have hnotices : (loading.draft.addDocument path text).notices =
              loading.draft.notices ++ (loading.draft.reader path text).notices := rfl
          rw [hnotices, h.reader] at hreported
          exact .inl (reported_of_append_reader hreported)
    | error fault =>
        refine h.source rfl (List.Subset.refl _) (List.subset_append_left ..)
          (fun _ hmem => .inl hmem) (fun other hreported => reported_of_addNotice hreported) ?_
        exact .inr ⟨path, reported_addNotice .., rfl⟩

theorem Accounts.addSources (h : Accounts tree walked refused loading) (paths : List Path) :
    Accounts tree (walked ++ paths) refused (paths.foldl (Loading.addSource tree) loading) := by
  induction paths generalizing walked loading with
  | nil => rwa [List.append_nil]
  | cons path paths ih =>
      rw [List.append_cons]
      exact ih (h.addSource path)

theorem Accounts.refuse (h : Accounts tree walked refused loading) (project : Path)
    (message : String) : Accounts tree walked (refused ++ [project])
      { loading with draft := loading.draft.addNotice (.failure project message) } where
  reader := h.reader
  seen path hmem := (h.seen path hmem).mono (List.Subset.refl _) (List.subset_append_left ..)
  sources path hmem := (h.sources path hmem).mono (List.Subset.refl _) (List.subset_append_left ..)
  documents := h.documents
  reports := by
    refine List.forall_mem_append.mpr ⟨fun other hmem => ?_, List.forall_mem_singleton.mpr ?_⟩
    · exact (h.reports other hmem).mono (List.subset_append_left ..)
    · exact reported_addNotice ..
  failures other hreported := by
    rcases reported_of_addNotice hreported with hold | rfl
    · exact (h.failures other hold).imp_right (List.mem_append_left _)
    · exact .inr (List.mem_append_right _ (List.mem_singleton_self _))

/-! ## Projects -/

/-- Whether loading can open a project. -/
def isOpen (tree : FileTree) (project : Path) : Bool :=
  tree.isFile project && (tree.read project).isOk

/-- Loading goes through projects in turn. It adds each that it can open and has a notice about each of
the others. -/
inductive Visits (walk : Walk) (tree : FileTree) : List Path → Loading → Loading → Prop
  | nil {loading : Loading} : Visits walk tree [] loading loading
  | opened {project : Path} {projects : List Path} {loading after : Loading} {text : Text}
      (hfile : tree.isFile project = true) (hread : tree.read project = .ok text)
      (h : Visits walk tree projects (loading.addProject walk tree project) after) :
      Visits walk tree (project :: projects) loading after
  | refused {project : Path} {projects : List Path} {loading after : Loading} {message : String}
      (hclosed : isOpen tree project = false)
      (h : Visits walk tree projects
        { loading with draft := loading.draft.addNotice (.failure project message) } after) :
      Visits walk tree (project :: projects) loading after

namespace Visits

variable {projects : List Path} {after : Loading}

theorem addProject (hfile : tree.isFile project = true)
    (h : Visits walk tree projects (loading.addProject walk tree project) after) :
    Visits walk tree (project :: projects) loading after := by
  cases hread : tree.read project with
  | ok text => exact .opened hfile hread h
  | error fault =>
      rw [Loading.addProject, hread] at h
      exact .refused (by rw [isOpen, hfile, hread]; rfl) h

theorem addEntry {entry : SolutionEntry} (hproject : isProject (root.join entry.path) = true)
    (h : Visits walk tree projects (loading.addEntry walk tree root entry) after) :
    Visits walk tree (root.join entry.path :: projects) loading after := by
  rw [Loading.addEntry, hproject, if_neg (by decide)] at h
  cases hfile : tree.isFile (root.join entry.path) with
  | true =>
      rw [hfile, if_neg (by decide)] at h
      exact .addProject hfile h
  | false =>
      rw [hfile, if_pos (by decide)] at h
      exact .refused (by rw [isOpen, hfile]; rfl) h

theorem addEntries (walk : Walk) (tree : FileTree) (root : Path) (entries : List SolutionEntry)
    (loading : Loading) :
    Visits walk tree ((entries.map fun entry => root.join entry.path).filter isProject) loading
      (entries.foldl (Loading.addEntry walk tree root) loading) := by
  induction entries generalizing loading with
  | nil => exact .nil
  | cons entry entries ih =>
      rw [List.map_cons, List.foldl_cons]
      by_cases hproject : isProject (root.join entry.path) = true
      · rw [List.filter_cons_of_pos hproject]
        exact .addEntry hproject (ih _)
      · have hskip : Loading.addEntry walk tree root loading entry = loading := by
          rw [Loading.addEntry, if_pos (by simpa using hproject)]
        rw [List.filter_cons_of_neg hproject, hskip]
        exact ih loading

end Visits

/-- Loading a file of one of the two kinds goes through the projects that it names, unless it cannot
read a solution. -/
theorem load_visits (reader : Reader) (walk : Walk) (hfile : tree.isFile target = true)
    (hkind : target.extension? = some "sln" ∨ isProject target = true) :
    (∃ cause, target.extension? = some "sln" ∧ tree.read target = .error cause ∧
        load reader tree target walk = .error (.file cause)) ∨
      ∃ loading, Visits walk tree (projects tree target) { draft := { reader } } loading ∧
        load reader tree target walk = .ok loading.draft.build := by
  rw [load, projects, hfile, if_neg (by decide)]
  by_cases hsolution : target.extension? = some "sln"
  · have hproject : isProject target = false := by
      rw [isProject, hsolution]
      decide
    rw [if_pos hsolution, hproject]
    cases hread : tree.read target with
    | error cause => exact .inl ⟨cause, hsolution, rfl, rfl⟩
    | ok text => exact .inr ⟨_, .addEntries walk tree target.directory (SolutionEntry.readAll text) _, rfl⟩
  · have hproject := hkind.resolve_left hsolution
    rw [if_neg hsolution, if_pos hproject, if_pos hproject]
    exact .inr ⟨_, .addProject hfile .nil, rfl⟩

theorem isFile_of_load {loaded : Solution × List Notice} (h : load reader tree target walk = .ok loaded) :
    tree.isFile target = true ∧ (target.extension? = some "sln" ∨ isProject target = true) := by
  rw [load] at h
  cases hfile : tree.isFile target with
  | false =>
      rw [hfile] at h
      cases h
  | true =>
      rw [hfile, if_neg (by decide)] at h
      by_cases hsolution : target.extension? = some "sln"
      · exact ⟨rfl, .inl hsolution⟩
      · rw [if_neg hsolution] at h
        cases hproject : isProject target with
        | true => exact ⟨rfl, .inr rfl⟩
        | false =>
            rw [hproject] at h
            cases h

theorem exists_visits_of_load {loaded : Solution × List Notice}
    (h : load reader tree target walk = .ok loaded) :
    ∃ loading, Visits walk tree (projects tree target) { draft := { reader } } loading ∧
      loading.draft.build = loaded := by
  obtain ⟨hfile, hkind⟩ := isFile_of_load h
  rcases load_visits reader walk hfile hkind with ⟨cause, -, -, hfails⟩ | ⟨loading, hvisits, hload⟩
  · cases hfails.symm.trans h
  · exact ⟨loading, hvisits, Except.ok.inj (hload.symm.trans h)⟩

/-- The sources that loading comes across. -/
def walkedOf (walk : Walk) (tree : FileTree) (projects : List Path) : List Path :=
  (projects.filter (isOpen tree)).flatMap fun project => Sources.all tree project.directory walk

/-- The projects that loading cannot open. -/
def refusedOf (tree : FileTree) (projects : List Path) : List Path :=
  projects.filter fun project => !isOpen tree project

theorem Accounts.open (h : Accounts tree walked refused loading) {text : Text}
    (hread : tree.read project = .ok text) :
    Accounts tree (walked ++ Sources.all tree project.directory walk) refused
      (loading.addProject walk tree project) := by
  have hproject : Accounts tree walked refused
      { loading with draft := loading.draft.addProject (project.fileStem?.getD "project") project } :=
    ⟨h.reader, h.seen, h.sources, h.documents, h.reports, h.failures⟩
  rw [addProject, hread]
  exact hproject.addSources (Sources.all tree project.directory walk)

theorem Accounts.visits {projects : List Path} {after : Loading}
    (h : Accounts tree walked refused loading) (hvisits : Visits walk tree projects loading after) :
    Accounts tree (walked ++ walkedOf walk tree projects) (refused ++ refusedOf tree projects)
      after := by
  induction hvisits generalizing walked refused with
  | nil => simpa [walkedOf, refusedOf] using h
  | @opened project _ _ _ _ hfile hread _ ih =>
      have hopen : isOpen tree project = true := by rw [isOpen, hfile, hread]; rfl
      simpa [walkedOf, refusedOf, hopen] using ih (h.open hread)
  | refused hclosed _ ih =>
      simpa [walkedOf, refusedOf, hclosed] using ih (h.refuse _ _)

/-! ## Sources -/

/-- The names lead from the directory of a project to a source file of it. -/
def IsSourceOf (tree : FileTree) (project : Path) (names : List Text) : Prop :=
  IsSource names ∧ tree.HoldsFile ((tree.placeOf project).dropLast ++ names)

/-- The walk for a project comes across a source under this path. -/
def Spells (tree : FileTree) (project path : Path) : Prop :=
  project.directory ≠ ⟨""⟩ ∧ ∃ names, IsSourceOf tree project names ∧
    (project.directory.below names.dropLast).text.utf8ByteSize ≤ pathLimit ∧
    project.directory.below names = path

theorem exists_fileName?_of_isProject (h : isProject project = true) :
    ∃ name, project.fileName? = some name := by
  rw [isProject, beq_iff_eq, extension?] at h
  obtain ⟨name, hname, -⟩ := Option.bind_eq_some_iff.mp h
  exact ⟨name, hname⟩

theorem exists_locate_of_isFile (h : tree.isFile path = true) : ∃ place, tree.locate path = .ok place := by
  rw [isFile, find] at h
  cases hlocate : tree.locate path with
  | error fault =>
      rw [hlocate] at h
      cases h
  | ok place => exact ⟨place, rfl⟩

theorem isProject_of_mem_projects (h : project ∈ projects tree target) : isProject project = true := by
  rw [projects] at h
  split at h
  · next htarget =>
      rw [List.mem_singleton.mp h]
      exact htarget
  · split at h
    · cases h
    · exact (List.mem_filter.mp h).2

theorem all_eq_nil_of_bare (hwalk : DocumentedWalk walk) (tree : FileTree) :
    Sources.all tree ⟨""⟩ walk = [] := all_eq_nil_of_missing hwalk rfl

theorem mem_all_directory_iff (hwalk : DocumentedWalk walk) (h : tree.WellFormed)
    (hproject : isProject project = true) (hfile : tree.isFile project = true) :
    path ∈ Sources.all tree project.directory walk ↔ Spells tree project path := by
  by_cases hdirectory : project.directory = ⟨""⟩
  · rw [hdirectory, all_eq_nil_of_bare hwalk]
    exact ⟨(nomatch ·), fun hspells => absurd hdirectory hspells.1⟩
  obtain ⟨name, hname⟩ := exists_fileName?_of_isProject hproject
  obtain ⟨place, hlocate⟩ := exists_locate_of_isFile hfile
  obtain ⟨above, habove, hentry, rfl⟩ := locate_directory hlocate hname hdirectory
  rw [Spells, and_iff_right hdirectory]
  simp only [mem_all_iff hwalk h habove hentry, IsSourceOf, placeOf_of_locate hlocate,
    List.dropLast_concat]
  refine exists_congr fun names => ?_
  constructor
  · rintro ⟨hsource, hsize, hholds, hpath⟩
    exact ⟨⟨hsource, hholds⟩, hsize, hpath⟩
  · rintro ⟨⟨hsource, hholds⟩, hsize, hpath⟩
    exact ⟨hsource, hsize, hholds, hpath⟩

theorem placeOf_source (h : tree.WellFormed) (hproject : isProject project = true)
    (hfile : tree.isFile project = true) (hdirectory : project.directory ≠ ⟨""⟩)
    {names : List Text} (hsource : IsSourceOf tree project names) :
    tree.placeOf (project.directory.below names) = (tree.placeOf project).dropLast ++ names := by
  obtain ⟨name, hname⟩ := exists_fileName?_of_isProject hproject
  obtain ⟨place, hlocate⟩ := exists_locate_of_isFile hfile
  obtain ⟨above, habove, -, rfl⟩ := locate_directory hlocate hname hdirectory
  have hnames : ∀ name ∈ names, IsName name := fun name hmem =>
    h.isName_of_holdsFile hsource.2 name (List.mem_append_right _ hmem)
  rw [placeOf_below tree _ hnames, placeOf_of_locate habove, placeOf_of_locate hlocate,
    List.dropLast_concat]

/-- A project is no source: its place ends in another kind of name. -/
theorem placeOf_ne_source (h : tree.WellFormed) {other : Path} (hother : isProject other = true)
    {names : List Text} (hsource : IsSourceOf tree project names) :
    tree.placeOf other ≠ (tree.placeOf project).dropLast ++ names := by
  intro hplace
  obtain ⟨name, hname⟩ := exists_fileName?_of_isProject hother
  obtain ⟨last, hlast, hextension⟩ := hsource.1.extension
  have hends : (tree.placeOf other).getLast? = some name := getLast?_placeOf tree hname
  rw [hplace, List.getLast?_append, hlast, Option.some_or] at hends
  obtain rfl : last = name := Option.some.inj hends
  have hproper : IsName last := h.isName_of_holdsFile hsource.2 last
    (List.mem_append_right _ (List.mem_of_getLast? hlast))
  rw [isProject, extension?, hname, ← fileName?_ofList hproper, ← extension?, hextension] at hother
  exact absurd hother (by decide)

/-! ## Every source -/

/-- The walk for one of the projects that can be opened comes across the file in a place. -/
def Walked (tree : FileTree) (projects : List Path) (place : Place) : Prop :=
  ∃ project ∈ projects, isOpen tree project = true ∧
    ∃ path, Spells tree project path ∧ tree.placeOf path = place

/-- How a solution and the notices about it account for the sources of the projects that it was loaded
for. No walk comes across a source of a project whose path is a bare name, or in a directory whose path
is too long, and then nothing is said of it. -/
structure Complete (tree : FileTree) (projects : List Path) (documents : List Document)
    (notices : List Notice) : Prop where
  reports : ∀ project ∈ projects, isOpen tree project = false → Reported notices project
  sources : ∀ project ∈ projects, ∀ names, IsSourceOf tree project names →
    (Accounted tree documents notices ((tree.placeOf project).dropLast ++ names) ↔
      Walked tree projects ((tree.placeOf project).dropLast ++ names))
  documents : ∀ document ∈ documents, ∃ project ∈ projects, isOpen tree project = true ∧
    ∃ names, IsSourceOf tree project names ∧
      tree.placeOf document.path = (tree.placeOf project).dropLast ++ names

theorem mem_walkedOf_iff (hwalk : DocumentedWalk walk) (h : tree.WellFormed) {projects : List Path}
    (hprojects : ∀ project ∈ projects, isProject project = true) :
    path ∈ walkedOf walk tree projects ↔
      ∃ project ∈ projects, isOpen tree project = true ∧ Spells tree project path := by
  rw [walkedOf, List.mem_flatMap]
  refine exists_congr fun project => ?_
  rw [List.mem_filter, and_assoc]
  refine and_congr_right fun hmem => and_congr_right fun hopen => ?_
  exact mem_all_directory_iff hwalk h (hprojects project hmem) (Bool.and_eq_true_iff.mp hopen).1

theorem Accounts.complete (hwalk : DocumentedWalk walk) (h : tree.WellFormed) {projects : List Path}
    (hprojects : ∀ project ∈ projects, isProject project = true)
    (haccounts : Accounts tree (walkedOf walk tree projects) (refusedOf tree projects) loading) :
    Complete tree projects loading.draft.documents loading.draft.notices where
  reports project hmem hclosed :=
    haccounts.reports project (List.mem_filter.mpr ⟨hmem, by rw [hclosed]; rfl⟩)
  sources project hmem names hsource := by
    have hwalked : ∀ path ∈ walkedOf walk tree projects, Walked tree projects (tree.placeOf path) := by
      intro path hpath
      obtain ⟨other, hother, hopen, hspells⟩ := (mem_walkedOf_iff hwalk h hprojects).mp hpath
      exact ⟨other, hother, hopen, path, hspells, rfl⟩
    constructor
    · rintro (⟨document, hdocument, hplace⟩ | ⟨path, hreported, hplace⟩)
      · rw [← hplace]
        exact hwalked _ (haccounts.documents document hdocument)
      · rcases haccounts.failures path hreported with hpath | hrefused
        · rw [← hplace]
          exact hwalked path hpath
        · -- a notice about a project names the project and no source
          exact absurd hplace
            (placeOf_ne_source h (hprojects path (List.mem_filter.mp hrefused).1) hsource)
    · rintro ⟨other, hother, hopen, path, hspells, hplace⟩
      rw [← hplace]
      exact haccounts.sources path
        ((mem_walkedOf_iff hwalk h hprojects).mpr ⟨other, hother, hopen, hspells⟩)
  documents document hdocument := by
    obtain ⟨project, hmem, hopen, hdirectory, names, hsource, -, hpath⟩ :=
      (mem_walkedOf_iff hwalk h hprojects).mp (haccounts.documents document hdocument)
    refine ⟨project, hmem, hopen, names, hsource, ?_⟩
    rw [← hpath]
    exact placeOf_source h (hprojects project hmem) (Bool.and_eq_true_iff.mp hopen).1 hdirectory hsource

theorem complete_of_load (hwalk : DocumentedWalk walk) (h : tree.WellFormed) {solution : Solution}
    (hload : load CSharp.reader tree target walk = .ok (solution, notices)) :
    Complete tree (projects tree target) solution.documents notices := by
  obtain ⟨loading, hvisits, hbuild⟩ := exists_visits_of_load hload
  obtain rfl : loading.draft.build.1 = solution := congrArg Prod.fst hbuild
  obtain rfl : loading.draft.notices = notices := congrArg Prod.snd hbuild
  have haccounts := (accounts_start tree).visits hvisits
  exact haccounts.complete hwalk h fun project hmem => isProject_of_mem_projects hmem

/-- **Which sources are passed over.** Loading a solution or a project that is there either fails with
the reason why the solution cannot be read, or gives documents and notices that account for just those
sources that the walk for a project comes across. All others are passed over without a word, apart
from that on a project which cannot be opened. -/
theorem sources_accounted_iff (hwalk : DocumentedWalk walk) (h : tree.WellFormed)
    (hfile : tree.isFile target = true)
    (hkind : target.extension? = some "sln" ∨ isProject target = true) :
    (∃ cause, target.extension? = some "sln" ∧ tree.read target = .error cause ∧
        load CSharp.reader tree target walk = .error (.file cause)) ∨
      ∃ solution notices, load CSharp.reader tree target walk = .ok (solution, notices) ∧
        Complete tree (projects tree target) solution.documents notices := by
  refine (load_visits CSharp.reader walk hfile hkind).imp_right ?_
  rintro ⟨loading, -, hload⟩
  exact ⟨_, _, hload, complete_of_load hwalk h hload⟩

/-- A project with a source in a directory below. -/
def nestedTree : FileTree :=
  ((FileTree.bare ["w".toList]).addFile ⟨"P/App.csproj"⟩ (.text []) FileTree.defaultMode).addFile
    ⟨"P/Sub/A.CS"⟩ (.text "using B;".toList) FileTree.defaultMode

theorem sources_accounted_of_nested : DocumentedWalk FileTree.walk ∧
    ∃ solution notices,
      load CSharp.reader nestedTree ⟨"P/../P/App.csproj"⟩ = .ok (solution, notices) ∧
        Accounted nestedTree solution.documents notices
          ["w".toList, "P".toList, "Sub".toList, "A.CS".toList] := by
  have hwell : nestedTree.WellFormed :=
    ⟨by decide +kernel, by decide +kernel, by decide +kernel⟩
  have hfile : nestedTree.isFile ⟨"P/../P/App.csproj"⟩ = true := by decide +kernel
  have hproject : isProject ⟨"P/../P/App.csproj"⟩ = true := by decide +kernel
  have hplace : nestedTree.placeOf ⟨"P/../P/App.csproj"⟩ =
      ["w".toList, "P".toList, "App.csproj".toList] := by decide +kernel
  refine ⟨documentedWalk_walk, ?_⟩
  rcases sources_accounted_iff documentedWalk_walk hwell hfile (.inr hproject) with
    ⟨cause, hsolution, -⟩ | ⟨solution, notices, hload, hcomplete⟩
  · exact absurd hsolution (by decide +kernel)
  · refine ⟨solution, notices, hload, ?_⟩
    have hmem : (⟨"P/../P/App.csproj"⟩ : Path) ∈ projects nestedTree ⟨"P/../P/App.csproj"⟩ := by
      decide +kernel
    have hsource : IsSourceOf nestedTree ⟨"P/../P/App.csproj"⟩ ["Sub".toList, "A.CS".toList] := by
      refine ⟨⟨by decide +kernel, "A.CS".toList, rfl, by decide +kernel⟩, ?_⟩
      refine ⟨.text "using B;".toList, FileTree.defaultMode, ?_⟩
      rw [hplace]
      decide +kernel
    have hspells : Spells nestedTree ⟨"P/../P/App.csproj"⟩ ⟨"P/../P/Sub/A.CS"⟩ :=
      ⟨by decide +kernel, _, hsource, by decide +kernel, by decide +kernel⟩
    have haccounted := (hcomplete.sources _ hmem _ hsource).mpr
      ⟨_, hmem, by decide +kernel, _, hspells, by decide +kernel⟩
    rwa [hplace] at haccounted

/-! ## What is passed over -/

/-- A target that is a project has its sources accounted for where it has a directory and the one that
they are in can be listed. -/
theorem walked_target_iff (h : tree.WellFormed) (hproject : isProject target = true)
    (hopen : isOpen tree target = true) {names : List Text} (hsource : IsSourceOf tree target names) :
    Walked tree (projects tree target) ((tree.placeOf target).dropLast ++ names) ↔
      target.directory ≠ ⟨""⟩ ∧
        (target.directory.below names.dropLast).text.utf8ByteSize ≤ pathLimit := by
  have hfile := (Bool.and_eq_true_iff.mp hopen).1
  rw [projects, if_pos hproject]
  constructor
  · rintro ⟨other, hother, -, path, ⟨hdirectory, names', hsource', hsize, rfl⟩, hplace⟩
    obtain rfl := List.mem_singleton.mp hother
    rw [placeOf_source h hproject hfile hdirectory hsource'] at hplace
    obtain rfl := List.append_cancel_left hplace
    exact ⟨hdirectory, hsize⟩
  · rintro ⟨hdirectory, hsize⟩
    exact ⟨target, List.mem_singleton_self target, hopen, _, ⟨hdirectory, names, hsource, hsize, rfl⟩,
      placeOf_source h hproject hfile hdirectory hsource⟩

/-- Loading a project gives a solution, and what that passes over are the sources to which no walk
comes. -/
theorem exists_load_not_accounted (h : tree.WellFormed) (hproject : isProject target = true)
    (hopen : isOpen tree target = true) {names : List Text} (hsource : IsSourceOf tree target names)
    (hpassed : target.directory = ⟨""⟩ ∨
      pathLimit < (target.directory.below names.dropLast).text.utf8ByteSize) :
    ∃ solution notices, load CSharp.reader tree target = .ok (solution, notices) ∧
      ¬Accounted tree solution.documents notices ((tree.placeOf target).dropLast ++ names) := by
  have hfile := (Bool.and_eq_true_iff.mp hopen).1
  rcases load_visits CSharp.reader FileTree.walk hfile (.inr hproject) with
    ⟨cause, hsolution, -⟩ | ⟨loading, -, hload⟩
  · rw [isProject, hsolution] at hproject
    exact absurd hproject (by decide)
  · refine ⟨_, _, hload, fun haccounted => ?_⟩
    have hmem : target ∈ projects tree target := by
      rw [projects, if_pos hproject]
      exact List.mem_singleton_self target
    have hcomplete := complete_of_load documentedWalk_walk h hload
    obtain ⟨hdirectory, hsize⟩ := (walked_target_iff h hproject hopen hsource).mp
      ((hcomplete.sources target hmem names hsource).mp haccounted)
    rcases hpassed with hbare | hlong
    · exact hdirectory hbare
    · omega

/-- A project in the directory in which relative paths begin, with a source beside it. -/
def bareTree : FileTree :=
  ((FileTree.bare ["w".toList]).addFile ⟨"App.csproj"⟩ (.text []) FileTree.defaultMode).addFile
    ⟨"a.cs"⟩ (.text []) FileTree.defaultMode

/-- Names of directories, one below another, that make up too long a path together. -/
def deepNames : List Text := List.replicate 17 (List.replicate 255 's')

/-- A project with a source in a directory that is too deep down. -/
def deepTree : FileTree :=
  let tree := (FileTree.bare ["w".toList]).addFile ⟨"P/App.csproj"⟩ (.text []) FileTree.defaultMode
  let (tree, place) := tree.makeWay ["w".toList, "P".toList] deepNames
  tree.insert (place ++ ["a.cs".toList]) (.file (.text []) FileTree.defaultMode)

/-- The source beside a project that is named without a directory is neither a document nor named, and
nor is one in a directory whose path is too long. -/
theorem load_passes_over_sources :
    (IsSourceOf bareTree ⟨"App.csproj"⟩ ["a.cs".toList] ∧ ∃ solution notices,
        load CSharp.reader bareTree ⟨"App.csproj"⟩ = .ok (solution, notices) ∧
          ¬Accounted bareTree solution.documents notices ["w".toList, "a.cs".toList]) ∧
      IsSourceOf deepTree ⟨"P/App.csproj"⟩ (deepNames ++ ["a.cs".toList]) ∧ ∃ solution notices,
        load CSharp.reader deepTree ⟨"P/App.csproj"⟩ = .ok (solution, notices) ∧
          ¬Accounted deepTree solution.documents notices
            (["w".toList, "P".toList] ++ (deepNames ++ ["a.cs".toList])) := by
  have hlast : (⟨String.ofList "a.cs".toList⟩ : Path).extension? = some "cs" := by decide +kernel
  constructor
  · have hplace : bareTree.placeOf ⟨"App.csproj"⟩ = ["w".toList, "App.csproj".toList] := by
      decide +kernel
    have hsource : IsSourceOf bareTree ⟨"App.csproj"⟩ ["a.cs".toList] := by
      refine ⟨⟨by decide +kernel, _, rfl, hlast⟩, .text [], FileTree.defaultMode, ?_⟩
      rw [hplace]
      decide +kernel
    have hwell : bareTree.WellFormed := ⟨by decide +kernel, by decide +kernel, by decide +kernel⟩
    have hload := exists_load_not_accounted hwell (by decide +kernel) (by decide +kernel) hsource
      (.inl (by decide +kernel))
    rw [hplace] at hload
    exact ⟨hsource, hload⟩
  · have hplace : deepTree.placeOf ⟨"P/App.csproj"⟩ =
        ["w".toList, "P".toList, "App.csproj".toList] := by decide +kernel
    have hsource : IsSourceOf deepTree ⟨"P/App.csproj"⟩ (deepNames ++ ["a.cs".toList]) := by
      refine ⟨⟨by decide +kernel, _, List.getLast?_concat, hlast⟩, .text [], FileTree.defaultMode, ?_⟩
      rw [hplace]
      decide +kernel
    have hwell : deepTree.WellFormed := ⟨by decide +kernel, by decide +kernel, by decide +kernel⟩
    have hsize : pathLimit < ((⟨"P/App.csproj"⟩ : Path).directory.below
        (deepNames ++ ["a.cs".toList]).dropLast).text.utf8ByteSize := by
      rw [List.dropLast_concat]
      refine Nat.lt_of_lt_of_le ?_ (add_size_le_below _ (by decide +kernel))
      exact Nat.lt_of_lt_of_le (by decide +kernel) (Nat.le_add_left _ _)
    have hload := exists_load_not_accounted hwell (by decide +kernel) (by decide +kernel) hsource
      (.inr hsize)
    rw [hplace] at hload
    exact ⟨hsource, hload⟩

end Loading

end CSharpTidy
