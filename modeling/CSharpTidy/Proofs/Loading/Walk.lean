import CSharpTidy.Files.Walk
import CSharpTidy.Proofs.Files.Place
import CSharpTidy.Proofs.Text.Utf8

/-!
# Walks through a tree of files

A walk is asked of the system, and what is relied on is what is documented: below a directory it comes
across each regular file once, under the path of the names that lead there, provided it is to enter
what is on the way and can list it. The walk through a tree that is held in memory does so.
-/

namespace CSharpTidy

namespace Path

variable {directory path : Path} {names : List Text} {name : Text} {paths : List Path}

theorem below_concat (directory : Path) (names : List Text) (name : Text) :
    directory.below (names ++ [name]) = (directory.below names).join ⟨String.ofList name⟩ := by
  rw [below, List.foldl_append]
  rfl

theorem extension?_below (directory : Path) (hlast : names.getLast? = some name) (h : IsName name) :
    (directory.below names).extension? = (⟨String.ofList name⟩ : Path).extension? := by
  obtain ⟨front, rfl⟩ := List.getLast?_eq_some_iff.mp hlast
  rw [below_concat]
  exact extension?_join _ h

/-- A path has room for all names that are put behind it. -/
theorem add_size_le_below (directory : Path) (h : ∀ name ∈ names, '/' ∉ name) :
    directory.text.utf8ByteSize + Text.size names.flatten ≤
      (directory.below names).text.utf8ByteSize := by
  induction names generalizing directory with
  | nil => exact Nat.le_refl _
  | cons name names ih =>
      obtain ⟨hname, hnames⟩ := List.forall_mem_cons.mp h
      have hjoin : directory.text.utf8ByteSize + name.size ≤
          (directory.join ⟨String.ofList name⟩).text.utf8ByteSize := by
        have hsize : (⟨String.ofList name⟩ : Path).text.utf8ByteSize = name.size :=
          Text.utf8ByteSize_ofList name
        rw [join, if_neg (by simp [isAbsolute_ofList hname])]
        split
        · exact Nat.le_of_eq (by rw [String.utf8ByteSize_append, hsize])
        · rw [String.utf8ByteSize_append, String.utf8ByteSize_append, hsize]
          omega
      have hrest := ih (directory.join ⟨String.ofList name⟩) hnames
      rw [List.flatten_cons, Text.size_append]
      exact Nat.le_trans (by omega) hrest

/-! ## Paths in order -/

def Apart (paths : List Path) : Prop := paths.Pairwise fun first second => compare first second ≠ .eq

/-- The paths ascend by their steps. -/
def Ascending (paths : List Path) : Prop :=
  paths.Pairwise fun first second => compare first second = .lt

theorem Ascending.apart (h : Ascending paths) : Apart paths :=
  h.imp fun hlt heq => Ordering.noConfusion (hlt.symm.trans heq)

theorem Apart.ascending_mergeSort (h : Apart paths) :
    Ascending (paths.mergeSort fun first second => (compare first second).isLE) := by
  have htotal : ∀ first second : Path,
      ((compare first second).isLE || (compare second first).isLE) = true := by
    intro first second
    have hswap : compare second first = (compare first second).swap := Std.OrientedCmp.eq_swap
    rw [hswap]
    cases compare first second <;> rfl
  have hsorted := List.pairwise_mergeSort (fun _ _ _ => Std.TransCmp.isLE_trans) htotal paths
  have happart := (List.mergeSort_perm paths fun first second => (compare first second).isLE).symm.pairwise
    h fun hne heq => hne (Std.OrientedCmp.eq_comm.mp heq)
  refine (hsorted.and happart).imp fun hboth => ?_
  exact (Ordering.isLE_iff_eq_lt_or_eq_eq.mp hboth.1).resolve_right hboth.2

theorem Apart.filter_eq (h : Apart paths) (hmem : path ∈ paths) :
    paths.filter (compare · path == .eq) = [path] := by
  obtain ⟨front, back, rfl⟩ := List.append_of_mem hmem
  obtain ⟨-, hback, hfront⟩ := List.pairwise_append.mp h
  obtain ⟨hpath, -⟩ := List.pairwise_cons.mp hback
  have hbefore : front.filter (compare · path == .eq) = [] := by
    refine List.filter_eq_nil_iff.mpr fun other hother => ?_
    simpa using hfront other hother path List.mem_cons_self
  have hafter : back.filter (compare · path == .eq) = [] := by
    refine List.filter_eq_nil_iff.mpr fun other hother heq => ?_
    exact hpath other hother (Std.OrientedCmp.eq_comm.mp (beq_iff_eq.mp heq))
  rw [List.filter_append, hbefore, List.nil_append, List.filter_cons_of_pos (by simp), hafter]

end Path

namespace FileTree

open CSharpTidy.Path

/-- Entries stand in the order of their places under names that paths can spell, below a root that is
a directory. -/
structure WellFormed (tree : FileTree) : Prop where
  ordered : tree.entries.Ordered
  names : ∀ entry ∈ tree.entries.entries, ∀ name ∈ entry.1, Path.IsName name
  root : ∀ entry ∈ tree.entries.entries, entry.1 = [] → entry.2 = .directory

/-- Whether there is a regular file in a place. -/
def HoldsFile (tree : FileTree) (place : Place) : Prop :=
  ∃ contents mode, tree.entry? place = some (.file contents mode)

variable {tree : FileTree} {place : Place} {contents : Contents} {mode : Nat} {names : List Text}
  {entry : FileEntry} {directory path : Path}

theorem WellFormed.mem_entries_iff (h : tree.WellFormed) (hentry : entry ≠ .directory) :
    (place, entry) ∈ tree.entries.entries ↔ tree.entry? place = some entry := by
  unfold entry?
  by_cases hroot : place = []
  · rw [if_pos hroot, Option.some.injEq]
    exact ⟨fun hmem => (h.root _ hmem hroot).symm, fun heq => absurd heq.symm hentry⟩
  · rw [if_neg hroot]
    exact h.ordered.mem_entries_iff

theorem mem_entriesBelow_iff :
    (names, entry) ∈ tree.entriesBelow place ↔ (place ++ names, entry) ∈ tree.entries.entries := by
  rw [entriesBelow, List.mem_filterMap]
  constructor
  · rintro ⟨⟨other, found⟩, hmem, hentry⟩
    rw [Option.ite_none_right_eq_some, List.isPrefixOf_iff_prefix] at hentry
    obtain ⟨⟨rest, rfl⟩, hdrop⟩ := hentry
    rw [List.drop_left] at hdrop
    obtain ⟨rfl, rfl⟩ := Prod.mk.inj (Option.some.inj hdrop)
    exact hmem
  · intro hmem
    refine ⟨_, hmem, ?_⟩
    have hbelow : place.isPrefixOf (place ++ names) = true :=
      List.isPrefixOf_iff_prefix.mpr (List.prefix_append place names)
    simp only [hbelow, if_true, List.drop_left]

theorem WellFormed.isName_of_mem_entriesBelow (h : tree.WellFormed)
    (hmem : (names, entry) ∈ tree.entriesBelow place) : ∀ name ∈ names, IsName name :=
  fun name hname => h.names _ (mem_entriesBelow_iff.mp hmem) name (List.mem_append_right _ hname)

theorem WellFormed.isName_of_holdsFile (h : tree.WellFormed) (hfile : tree.HoldsFile place) :
    ∀ name ∈ place, Path.IsName name := by
  obtain ⟨contents, mode, hentry⟩ := hfile
  exact h.names _ ((h.mem_entries_iff (by simp)).mpr hentry)

theorem placeOf_below (tree : FileTree) (directory : Path) (h : ∀ name ∈ names, IsName name) :
    tree.placeOf (directory.below names) = tree.placeOf directory ++ names := by
  induction names generalizing directory with
  | nil => exact (List.append_nil _).symm
  | cons name names ih =>
      obtain ⟨hname, hnames⟩ := List.forall_mem_cons.mp h
      have htail : directory.below (name :: names) =
          (directory.join ⟨String.ofList name⟩).below names := rfl
      rw [htail, ih _ hnames, tree.placeOf_join directory hname, List.append_assoc]
      rfl

theorem eq_of_compare_below {names names' : List Text} (hnames : ∀ name ∈ names, IsName name)
    (hnames' : ∀ name ∈ names', IsName name)
    (h : compare (directory.below names) (directory.below names') = .eq) : names = names' := by
  have hplace : ({} : FileTree).placeOf (directory.below names) =
      ({} : FileTree).placeOf (directory.below names') := placeOf_eq_of_compare h
  rw [placeOf_below _ _ hnames, placeOf_below _ _ hnames'] at hplace
  exact List.append_cancel_left hplace

theorem nodup_entriesBelow (h : tree.WellFormed) (place : Place) :
    ((tree.entriesBelow place).map Prod.fst).Nodup := by
  refine List.pairwise_map.mpr
    (List.Pairwise.filterMap _ (fun first second hlt found hfound found' hfound' heq => ?_) h.ordered)
  rw [Option.ite_none_right_eq_some, List.isPrefixOf_iff_prefix] at hfound hfound'
  obtain ⟨⟨rest, hfirst⟩, hdrop⟩ := hfound
  obtain ⟨⟨rest', hsecond⟩, hdrop'⟩ := hfound'
  rw [← hfirst, List.drop_left] at hdrop
  rw [← hsecond, List.drop_left] at hdrop'
  rw [← Option.some.inj hdrop, ← Option.some.inj hdrop'] at heq
  obtain rfl : rest = rest' := heq
  rw [← hfirst, ← hsecond] at hlt
  have hself : compare (place ++ rest) (place ++ rest) = .eq := Std.ReflCmp.compare_self
  exact Ordering.noConfusion (hlt.symm.trans hself)

end FileTree

/-! ## What a walk is documented to do -/

open FileTree CSharpTidy.Path

/-- What is relied on in a walk through the system's directories. -/
structure DocumentedWalk (walk : Walk) : Prop where
  /-- Where nothing can be found there is nothing to come across. -/
  missing : ∀ {tree directory fault}, tree.locate directory = .error fault →
    ∀ enters entry, .ok entry ∉ walk tree enters directory
  /-- A walk comes across a file if it is to enter it and each directory on the way, and if the path
  of the last of these is not too long to be listed. -/
  mem_iff : ∀ {tree : FileTree} {directory place}, tree.WellFormed →
    tree.locate directory = .ok place → tree.entry? place = some .directory →
      ∀ (enters : WalkEntry → Bool) (entry : WalkEntry), entry.kind = .file →
        (.ok entry ∈ walk tree enters directory ↔
          entry.path = directory.below entry.names ∧ tree.HoldsFile (place ++ entry.names) ∧
            enters entry = true ∧
            (∀ n < entry.names.length, enters (directoryAfter directory entry.names n) = true) ∧
            (directory.below entry.names.dropLast).text.utf8ByteSize ≤ pathLimit)
  /-- It comes across nothing twice. -/
  apart : ∀ {tree : FileTree}, tree.WellFormed → ∀ enters directory,
    Apart (((walk tree enters directory).filterMap Except.toOption).map WalkEntry.path)

theorem filterMap_toOption_map_ok {α ε : Type} (items : List α) :
    (items.map (Except.ok : α → Except ε α)).filterMap Except.toOption = items := by
  rw [List.filterMap_map]
  exact List.filterMap_some

/-- The walk through a tree in memory goes as walks are documented to go. -/
theorem documentedWalk_walk : DocumentedWalk FileTree.walk where
  missing hlocate enters entry hmem := by
    rw [FileTree.walk, hlocate] at hmem
    simp at hmem
  mem_iff := by
    intro tree directory place hwell hlocate _ enters entry hkind
    have hfound : (∃ found, (entry.names, found) ∈ tree.entriesBelow place ∧
        (⟨directory.below entry.names, entry.names, found.kind⟩ : WalkEntry) = entry) ↔
          entry.path = directory.below entry.names ∧ tree.HoldsFile (place ++ entry.names) := by
      constructor
      · rintro ⟨found, hmem, hentry⟩
        have hfile : found.kind = .file := by rw [← hkind, ← hentry]
        refine ⟨by rw [← hentry], ?_⟩
        cases found with
        | file contents mode =>
            exact ⟨contents, mode, (hwell.mem_entries_iff (by simp)).mp (mem_entriesBelow_iff.mp hmem)⟩
        | directory => cases hfile
        | emptyDevice => cases hfile
      · rintro ⟨hpath, contents, mode, hentry⟩
        refine ⟨.file contents mode, ?_, ?_⟩
        · exact mem_entriesBelow_iff.mpr ((hwell.mem_entries_iff (by simp)).mpr hentry)
        · rw [← hpath, FileEntry.kind, ← hkind]
    rw [← and_assoc, ← hfound, FileTree.walk, hlocate]
    simp only [List.mem_map, List.mem_filter, isReached, Bool.and_eq_true, List.all_eq_true,
      List.mem_range, decide_eq_true_eq, Except.ok.injEq, exists_eq_right, Prod.exists]
    constructor
    · rintro ⟨⟨names, found, hmem, rfl⟩, ⟨henters, hway⟩, hsize⟩
      exact ⟨⟨found, hmem, rfl⟩, henters, hway, hsize⟩
    · rintro ⟨⟨found, hmem, hentry⟩, henters, hway, hsize⟩
      exact ⟨⟨entry.names, found, hmem, hentry⟩, ⟨henters, hway⟩, hsize⟩
  apart := by
    intro tree hwell enters directory
    rw [FileTree.walk]
    split
    · exact .nil
    · next place _ =>
        rw [filterMap_toOption_map_ok]
        refine List.pairwise_map.mpr (List.Pairwise.filter _ (List.pairwise_map.mpr ?_))
        refine (List.pairwise_map.mp (nodup_entriesBelow hwell place)).imp_of_mem ?_
        intro first second hfirst hsecond hne heq
        exact hne (eq_of_compare_below (hwell.isName_of_mem_entriesBelow hfirst)
          (hwell.isName_of_mem_entriesBelow hsecond) heq)

end CSharpTidy
