import CSharpTidy.Loading.Sources
import CSharpTidy.Proofs.Loading.Walk

/-!
# The sources below a directory

A source is a file by its own name and by the names of the directories on the way to it. What is found
below a directory are its sources, each under a path that leads to its place, as long as the paths of
the directories on the way are short enough to be listed.
-/

namespace CSharpTidy

namespace Sources

open FileTree CSharpTidy.Path

variable {tree : FileTree} {walk : Walk} {directory path : Path} {place : Place} {names : List Text}

/-- The names that lead from the directory of a project to a source, if there is a file. -/
structure IsSource (names : List Text) : Prop where
  notSkipped : ∀ name ∈ names.dropLast, isSkipped name = false
  extension : ∃ name, names.getLast? = some name ∧
    (⟨String.ofList name⟩ : Path).extension? = some "cs"

theorem isEntered_of_file {entry : WalkEntry} (h : entry.kind = .file) : isEntered entry = true := by
  simp [isEntered, h]

/-- A walk enters all directories on the way just where none of their names is skipped. -/
theorem forall_isEntered_iff (directory : Path) (names : List Text) :
    (∀ n < names.length, isEntered (directoryAfter directory names n) = true) ↔
      ∀ name ∈ names.dropLast, isSkipped name = false := by
  have hlast : ∀ n, isEntered (directoryAfter directory names n) =
      !(names.take n).getLast?.any isSkipped := fun n => rfl
  simp only [hlast, Bool.not_eq_true']
  constructor
  · intro h name hmem
    obtain ⟨i, hi, rfl⟩ := List.getElem_of_mem hmem
    rw [List.length_dropLast] at hi
    have hstep := h (i + 1) (by omega)
    have hget : i < names.length := by omega
    rw [List.getLast?_take, if_neg (Nat.succ_ne_zero i), Nat.add_sub_cancel,
      List.getElem?_eq_getElem hget] at hstep
    rwa [List.getElem_dropLast]
  · intro h n hn
    cases n with
    | zero => rfl
    | succ i =>
        have hget : i < names.length := by omega
        have hmem : names[i] ∈ names.dropLast := by
          rw [← List.getElem_dropLast (by rw [List.length_dropLast]; omega)]
          exact List.getElem_mem _
        rw [List.getLast?_take, if_neg (Nat.succ_ne_zero i), Nat.add_sub_cancel,
          List.getElem?_eq_getElem hget]
        exact h _ hmem

/-- The walk for sources comes across those files to which no skipped directory leads. -/
theorem mem_walk_iff (hwalk : DocumentedWalk walk) (h : tree.WellFormed)
    (hlocate : tree.locate directory = .ok place) (hentry : tree.entry? place = some .directory) :
    .ok ⟨path, names, .file⟩ ∈ walk tree isEntered directory ↔
      (∀ name ∈ names.dropLast, isSkipped name = false) ∧
        (directory.below names.dropLast).text.utf8ByteSize ≤ pathLimit ∧
        tree.HoldsFile (place ++ names) ∧ directory.below names = path := by
  rw [hwalk.mem_iff h hlocate hentry isEntered _ rfl, forall_isEntered_iff]
  constructor
  · rintro ⟨hpath, hfile, -, hskipped, hsize⟩
    exact ⟨hskipped, hsize, hfile, hpath.symm⟩
  · rintro ⟨hskipped, hsize, hfile, hpath⟩
    exact ⟨hpath.symm, hfile, isEntered_of_file rfl, hskipped, hsize⟩

theorem mem_all : path ∈ all tree directory walk ↔
    (∃ names, .ok ⟨path, names, .file⟩ ∈ walk tree isEntered directory) ∧
      path.extension? = some "cs" := by
  rw [all, List.mem_mergeSort, List.mem_filter, List.mem_map, beq_iff_eq]
  refine and_congr_left fun _ => ?_
  constructor
  · rintro ⟨⟨_, names, kind⟩, hmem, rfl⟩
    obtain ⟨hfound, hkind⟩ := List.mem_filter.mp hmem
    obtain ⟨result, hresult, hok⟩ := List.mem_filterMap.mp hfound
    obtain rfl : kind = .file := beq_iff_eq.mp hkind
    cases result with
    | error fault => cases hok
    | ok entry =>
        obtain rfl := Option.some.inj hok
        exact ⟨names, hresult⟩
  · rintro ⟨names, hmem⟩
    exact ⟨_, List.mem_filter.mpr ⟨List.mem_filterMap.mpr ⟨_, hmem, rfl⟩, rfl⟩, rfl⟩

theorem mem_all_iff (hwalk : DocumentedWalk walk) (h : tree.WellFormed)
    (hlocate : tree.locate directory = .ok place) (hentry : tree.entry? place = some .directory) :
    path ∈ all tree directory walk ↔ ∃ names, IsSource names ∧
      (directory.below names.dropLast).text.utf8ByteSize ≤ pathLimit ∧
      tree.HoldsFile (place ++ names) ∧ directory.below names = path := by
  have hextension : ∀ names, tree.HoldsFile (place ++ names) →
      ((directory.below names).extension? = some "cs" ↔ ∃ name, names.getLast? = some name ∧
        (⟨String.ofList name⟩ : Path).extension? = some "cs") := by
    intro names hfile
    cases hlast : names.getLast? with
    | none =>
        obtain ⟨contents, mode, hfile⟩ := hfile
        rw [List.getLast?_eq_none_iff.mp hlast, List.append_nil, hentry] at hfile
        cases hfile
    | some name =>
        have hname : IsName name := h.isName_of_holdsFile hfile name
          (List.mem_append_right _ (List.mem_of_getLast? hlast))
        rw [extension?_below directory hlast hname]
        simp
  rw [mem_all, exists_and_right.symm]
  refine exists_congr fun names => ?_
  rw [mem_walk_iff hwalk h hlocate hentry]
  constructor
  · rintro ⟨⟨hskipped, hsize, hfile, rfl⟩, hcs⟩
    exact ⟨⟨hskipped, (hextension names hfile).mp hcs⟩, hsize, hfile, rfl⟩
  · rintro ⟨hsource, hsize, hfile, rfl⟩
    exact ⟨⟨hsource.notSkipped, hsize, hfile, rfl⟩, (hextension names hfile).mpr hsource.extension⟩

theorem all_eq_nil_of_missing (hwalk : DocumentedWalk walk) {fault : FileFault}
    (h : tree.locate directory = .error fault) : all tree directory walk = [] := by
  refine List.eq_nil_iff_forall_not_mem.mpr fun path hmem => ?_
  obtain ⟨⟨names, hfound⟩, -⟩ := mem_all.mp hmem
  exact hwalk.missing h isEntered _ hfound

theorem ascending_all (hwalk : DocumentedWalk walk) (h : tree.WellFormed) (directory : Path) :
    Ascending (all tree directory walk) := by
  refine Apart.ascending_mergeSort (List.Pairwise.filter _ ?_)
  have happart := hwalk.apart h isEntered directory
  exact List.pairwise_map.mpr ((List.pairwise_map.mp happart).filter _)

theorem extension?_of_mem_all (h : path ∈ all tree directory walk) : path.extension? = some "cs" :=
  (mem_all.mp h).2

end Sources

end CSharpTidy
