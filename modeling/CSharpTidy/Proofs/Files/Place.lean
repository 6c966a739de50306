import CSharpTidy.Files.Tree
import CSharpTidy.Proofs.SortedMap

/-!
# Where paths lead

The steps of a path lead from one place to another, whether or not there is anything on the way. Where
a tree finds a place under a path, it is the place to which the steps lead, so two spellings of one
path name one place. A name goes one step down, and the directory of a path leads to the place above.
-/

namespace CSharpTidy

namespace Path

variable {path base : Path} {first segment name last : Text} {others names : List Text}

/-! ## Names -/

/-- A part of a path that goes down to an entry of this name. -/
def IsName (name : Text) : Prop := '/' ∉ name ∧ stepOf? name = some (.name name)

instance (name : Text) : Decidable (IsName name) := inferInstanceAs (Decidable (_ ∧ _))

theorem IsName.not_isTrivial (h : IsName name) : isTrivial name = false := by
  cases htrivial : isTrivial name with
  | false => rfl
  | true =>
      have hstep := h.2
      rw [stepOf?, htrivial, if_pos rfl] at hstep
      cases hstep

theorem stepOf?_of_isTrivial (h : isTrivial segment = true) : stepOf? segment = none := if_pos h

/-! ## Steps -/

/-- The steps that the first part of a path names. -/
def leadingSteps (segment : Text) : List Component :=
  if segment = [] then [.root] else if segment = ['.'] then [.current] else (stepOf? segment).toList

theorem components_of_segments (h : path.segments = first :: others)
    (hne : first :: others ≠ [[]]) :
    path.components = leadingSteps first ++ others.filterMap stepOf? := by
  rw [components, h, leadingSteps]
  cases first with
  | nil =>
      have hothers : others ≠ [] := fun hnil => hne (congrArg ([] :: ·) hnil)
      simp [hothers]
  | cons c first => simp

theorem segments_ne_nil (path : Path) : path.segments ≠ [] := by
  rw [segments, Text.split_eq_splitOn]
  exact List.splitOn_ne_nil '/' path.text.toList

theorem segments_eq_nil_iff : path.segments = [[]] ↔ path.text = "" := by
  rw [segments, Text.split_eq_splitOn]
  constructor
  · intro h
    have htext : ['/'].intercalate (path.text.toList.splitOn '/') = path.text.toList :=
      List.intercalate_splitOn '/'
    rw [h] at htext
    exact String.toList_eq_nil_iff.mp htext.symm
  · intro h
    rw [h]
    rfl

theorem isAbsolute_iff (h : path.segments = first :: others) (hne : path.text ≠ "") :
    path.isAbsolute = true ↔ first = [] := by
  rw [isAbsolute, beq_iff_eq]
  rw [segments, Text.split_eq_splitOn] at h
  cases htext : path.text.toList with
  | nil => exact absurd (String.toList_eq_nil_iff.mp htext) hne
  | cons c text =>
      rw [htext, List.splitOn_cons_eq_if_modifyHead] at h
      by_cases hc : c = '/'
      · rw [if_pos (beq_iff_eq.mpr hc)] at h
        simp [hc, (List.cons.inj h).1.symm]
      · rw [if_neg (mt beq_iff_eq.mp hc)] at h
        cases hparts : text.splitOn '/' with
        | nil => exact absurd hparts (List.splitOn_ne_nil '/' text)
        | cons part rest =>
            rw [hparts, List.modifyHead_cons] at h
            simp [hc, (List.cons.inj h).1.symm]

theorem isAbsolute_append {text : String} (hne : base.text ≠ "") (h : path.text = base.text ++ text) :
    path.isAbsolute = base.isAbsolute := by
  obtain ⟨c, front, hfront⟩ := List.exists_cons_of_ne_nil (mt String.toList_eq_nil_iff.mp hne)
  rw [isAbsolute, isAbsolute, h, String.toList_append, hfront]
  rfl

theorem segments_ofList (h : '/' ∉ name) : (⟨String.ofList name⟩ : Path).segments = [name] := by
  rw [segments, String.toList_ofList, Text.split_eq_splitOn]
  exact List.splitOn_eq_singleton h

theorem isAbsolute_ofList (h : '/' ∉ name) : (⟨String.ofList name⟩ : Path).isAbsolute = false := by
  rw [isAbsolute, String.toList_ofList, beq_eq_false_iff_ne]
  intro hhead
  exact h (List.mem_of_head? hhead)

/-- A name is put behind the parts of a path, or in the place of the empty part at their end. -/
theorem segments_join (hbase : base.text ≠ "") (h : '/' ∉ name) :
    ∃ front, front ≠ [] ∧ (base.segments = front ∨ base.segments = front ++ [[]]) ∧
      (base.join ⟨String.ofList name⟩).segments = front ++ [name] := by
  have hempty : base.text.isEmpty = false := by simpa using hbase
  rw [join, if_neg (by simp [isAbsolute_ofList h]), hempty, Bool.false_or]
  by_cases hlast : base.text.toList.getLast? = some '/'
  · obtain ⟨front, hfront⟩ := List.getLast?_eq_some_iff.mp hlast
    refine ⟨front.splitOn '/', List.splitOn_ne_nil '/' front, .inr ?_, ?_⟩
    · rw [segments, Text.split_eq_splitOn, hfront, List.splitOn_append_cons_self, List.splitOn_nil]
    · rw [if_pos (beq_iff_eq.mpr hlast), segments, String.toList_append, String.toList_ofList, hfront,
        Text.split_eq_splitOn, List.append_assoc, List.singleton_append,
        List.splitOn_append_cons_self, List.splitOn_eq_singleton h]
  · refine ⟨base.segments, base.segments_ne_nil, .inl rfl, ?_⟩
    have htext : (base.text ++ "/" ++ String.ofList name).toList = base.text.toList ++ '/' :: name := by
      simp
    rw [if_neg (mt beq_iff_eq.mp hlast), segments, segments, htext, Text.split_eq_splitOn,
      Text.split_eq_splitOn, List.splitOn_append_cons_self, List.splitOn_eq_singleton h]

theorem components_ofList (h : IsName name) :
    (⟨String.ofList name⟩ : Path).components = [.name name] := by
  have hnil : name ≠ [] := by
    rintro rfl
    exact absurd h.not_isTrivial (by decide)
  have hdot : name ≠ ['.'] := by
    rintro rfl
    exact absurd h.not_isTrivial (by decide)
  rw [components_of_segments (segments_ofList h.1) (by simpa), leadingSteps, if_neg hnil, if_neg hdot,
    h.2]
  rfl

theorem components_join (base : Path) (h : IsName name) :
    (base.join ⟨String.ofList name⟩).components = base.components ++ [.name name] := by
  by_cases hbase : base.text = ""
  · have hjoin : base.join ⟨String.ofList name⟩ = ⟨String.ofList name⟩ := by
      rw [join, hbase, if_neg (by simp [isAbsolute_ofList h.1])]
      simp
    have hsteps : base.components = [] := by
      rw [components, segments_eq_nil_iff.mpr hbase]
      rfl
    rw [hjoin, hsteps, components_ofList h, List.nil_append]
  · have hname : ([name] : List Text).filterMap stepOf? = [.name name] := by
      rw [List.filterMap_cons_some h.2, List.filterMap_nil]
    obtain ⟨front, hfront, hsegments, hjoin⟩ := segments_join hbase h.1
    obtain ⟨first, others, rfl⟩ := List.exists_cons_of_ne_nil hfront
    have hsteps : (base.join ⟨String.ofList name⟩).components =
        leadingSteps first ++ (others ++ [name]).filterMap stepOf? :=
      components_of_segments hjoin (by simp)
    rw [hsteps, List.filterMap_append, hname, ← List.append_assoc]
    refine congrArg (· ++ [Component.name name]) ?_
    rcases hsegments with hsegments | hsegments
    · have hne : first :: others ≠ [[]] := fun hnil =>
        hbase (segments_eq_nil_iff.mp (hsegments.trans hnil))
      rw [components_of_segments hsegments hne]
    · have hsteps : base.components = leadingSteps first ++ (others ++ [[]]).filterMap stepOf? :=
        components_of_segments hsegments (by simp)
      rw [hsteps, List.filterMap_append, List.filterMap_cons_none (stepOf?_of_isTrivial rfl),
        List.filterMap_nil, List.append_nil]

theorem fileName?_join (base : Path) (h : IsName name) :
    (base.join ⟨String.ofList name⟩).fileName? = some name := by
  rw [fileName?, components_join base h, List.getLast?_concat]

theorem fileName?_ofList (h : IsName name) : (⟨String.ofList name⟩ : Path).fileName? = some name := by
  rw [fileName?, components_ofList h]
  rfl

theorem extension?_join (base : Path) (h : IsName name) :
    (base.join ⟨String.ofList name⟩).extension? = (⟨String.ofList name⟩ : Path).extension? := by
  rw [extension?, extension?, fileName?_join base h, fileName?_ofList h]

theorem not_mem_of_mem_segments (h : segment ∈ path.segments) : '/' ∉ segment := by
  rw [segments, Text.split_eq_splitOn] at h
  generalize path.text.toList = text at h
  induction text generalizing segment with
  | nil =>
      rw [List.splitOn_nil, List.mem_singleton] at h
      simp [h]
  | cons c text ih =>
      rw [List.splitOn_cons_eq_if_modifyHead] at h
      by_cases hc : c = '/'
      · rw [if_pos (beq_iff_eq.mpr hc)] at h
        rcases List.mem_cons.mp h with rfl | h
        · exact List.not_mem_nil
        · exact ih h
      · rw [if_neg (mt beq_iff_eq.mp hc)] at h
        cases hparts : text.splitOn '/' with
        | nil => exact absurd hparts (List.splitOn_ne_nil '/' text)
        | cons part rest =>
            rw [hparts, List.modifyHead_cons] at h
            rcases List.mem_cons.mp h with rfl | h
            · intro hmem
              rcases List.mem_cons.mp hmem with rfl | hmem
              · exact hc rfl
              · exact ih (hparts ▸ List.mem_cons_self) hmem
            · exact ih (hparts ▸ List.mem_cons_of_mem part h)

/-! ## The directory of a path -/

/-- Parts at the end that name no step can be left away. -/
theorem exists_idle_end (segments : List Text) :
    ∃ idle, segments = (segments.reverse.dropWhile isTrivial).reverse ++ idle ∧
      idle.filterMap stepOf? = [] := by
  refine ⟨(segments.reverse.takeWhile isTrivial).reverse, ?_, ?_⟩
  · rw [← List.reverse_append, List.takeWhile_append_dropWhile, List.reverse_reverse]
  · refine List.filterMap_eq_nil_iff.mpr fun segment hmem => stepOf?_of_isTrivial ?_
    exact List.all_eq_true.mp List.all_takeWhile segment (List.mem_reverse.mp hmem)

theorem exists_step (h : isTrivial segment = false) : ∃ step, stepOf? segment = some step := by
  rw [stepOf?, h, if_neg Bool.false_ne_true]
  split <;> exact ⟨_, rfl⟩

theorem fileName?_eq_some_iff : path.fileName? = some name ↔
    path.components.getLast? = some (.name name) := by
  rw [fileName?]
  split
  · next last hlast => simp [hlast]
  · next hlast => exact ⟨(nomatch ·), (hlast name · |>.elim)⟩

/-- A path that ends in a name, and is more than that, is its directory with parts behind it that name
no other step. -/
theorem exists_directory (hname : path.fileName? = some name) (hdirectory : path.directory ≠ ⟨""⟩) :
    ∃ first kept below, path.segments = first :: (kept ++ below) ∧
      below.filterMap stepOf? = [.name name] ∧ path.directory = ofSegments (first :: kept) := by
  rw [fileName?_eq_some_iff] at hname
  obtain ⟨first, others, hsegments⟩ := List.exists_cons_of_ne_nil path.segments_ne_nil
  obtain ⟨idle, hothers, hidle⟩ := exists_idle_end others
  have hne : first :: others ≠ [[]] := by
    intro hnil
    rw [components, hsegments, hnil] at hname
    cases hname
  have hsteps := components_of_segments hsegments hne
  -- what stands in front of the last part that is not trivial is the directory
  cases hback : others.reverse.dropWhile isTrivial with
  | nil =>
      have hparent : path.parent? = if first = [] then none else some ⟨""⟩ := by
        unfold parent?
        simp only [hsegments, hback]
      rw [hback] at hothers
      -- a single part: the root has no name, and any other part has an empty directory
      by_cases hfirst : first = []
      · rw [hothers] at hsteps
        rw [hsteps, hfirst, List.reverse_nil, List.nil_append, hidle] at hname
        cases hname
      · refine absurd ?_ hdirectory
        rw [directory, hparent, if_neg hfirst, Option.getD_some]
  | cons last rest =>
      have hparent :
          path.parent? = some (ofSegments (first :: (rest.dropWhile isTrivial).reverse)) := by
        unfold parent?
        simp only [hsegments, hback]
      rw [hback] at hothers
      have hlast : isTrivial last = false := by
        have hhead := List.head?_dropWhile_not isTrivial others.reverse
        rw [hback] at hhead
        simpa using hhead
      obtain ⟨step, hstep⟩ := exists_step hlast
      obtain ⟨between, hrest, hbetween⟩ := exists_idle_end rest.reverse
      rw [List.reverse_reverse] at hrest
      -- the last part takes one step, the parts around it none
      have hbelow : (between ++ last :: idle).filterMap stepOf? = [step] := by
        rw [List.filterMap_append, hbetween, List.filterMap_cons_some hstep, hidle, List.nil_append]
      have hparts : others = (rest.dropWhile isTrivial).reverse ++ (between ++ last :: idle) := by
        rw [hothers, List.reverse_cons, hrest]
        simp
      have hstepName : step = .name name := by
        rw [hsteps, hparts, List.filterMap_append, hbelow, ← List.append_assoc,
          List.getLast?_concat] at hname
        exact Option.some.inj hname
      refine ⟨first, (rest.dropWhile isTrivial).reverse, between ++ last :: idle, ?_, ?_, ?_⟩
      · rw [hsegments, hparts]
      · rw [hbelow, hstepName]
      · rw [directory, hparent, Option.getD_some]

theorem segments_ofSegments (hparts : ∀ segment ∈ first :: others, '/' ∉ segment)
    (hne : first :: others ≠ [[]]) : (ofSegments (first :: others)).segments = first :: others := by
  have htext : ofSegments (first :: others) =
      ⟨String.ofList (['/'].intercalate (first :: others))⟩ := by
    rw [ofSegments]
    exact hne
  rw [htext, segments, String.toList_ofList, Text.split_eq_splitOn]
  exact List.splitOn_intercalate '/' hparts (by simp)

theorem components_ofSegments (hparts : ∀ segment ∈ first :: others, '/' ∉ segment) :
    (ofSegments (first :: others)).components = leadingSteps first ++ others.filterMap stepOf? := by
  by_cases hne : first :: others = [[]]
  · rw [hne]
    obtain ⟨rfl, rfl⟩ := List.cons.inj hne
    decide
  · exact components_of_segments (segments_ofSegments hparts hne) hne

theorem intercalate_append (separator : Text) {back : List Text} (hback : back ≠ []) :
    ∀ (first : Text) (front : List Text), separator.intercalate (first :: front ++ back) =
      separator.intercalate (first :: front) ++ (separator ++ separator.intercalate back)
  | first, [] => by
      obtain ⟨next, back, rfl⟩ := List.exists_cons_of_ne_nil hback
      simp [List.intercalate_cons_cons]
  | first, next :: front => by
      have ih := intercalate_append separator hback next front
      rw [List.cons_append] at ih
      simp only [List.cons_append, List.intercalate_cons_cons, ih, List.append_assoc]

theorem exists_text_ofSegments (hsegments : path.segments = first :: (others ++ names))
    (hnames : names ≠ []) :
    ∃ rest, path.text = (ofSegments (first :: others)).text ++ String.ofList rest := by
  have htext : ['/'].intercalate path.segments = path.text.toList := by
    rw [segments, Text.split_eq_splitOn]
    exact List.intercalate_splitOn '/'
  have happend : path.text.toList = ['/'].intercalate (first :: others) ++
      (['/'] ++ ['/'].intercalate names) := by
    rw [← htext, hsegments]
    exact intercalate_append ['/'] hnames first others
  by_cases hne : first :: others = [[]]
  · refine ⟨['/'].intercalate names, String.toList_inj.mp ?_⟩
    rw [happend, hne]
    simp [ofSegments]
  · refine ⟨['/'] ++ ['/'].intercalate names, String.toList_inj.mp ?_⟩
    rw [happend, ofSegments]
    · simp
    · exact hne

end Path

/-! ## Places -/

/-- Where a step leads from a place. -/
def Place.along (place : Place) : Path.Component → Place
  | .root => []
  | .current => place
  | .parent => place.dropLast
  | .name name => place ++ [name]

namespace FileTree

open CSharpTidy.Path

variable {tree : FileTree} {path : Path} {place start : Place} {first segment name : Text}
  {others segments names : List Text}

/-- The place to which the steps of a path lead. -/
def placeOf (tree : FileTree) (path : Path) : Place := path.components.foldl Place.along tree.current

theorem placeOf_eq_of_compare {path other : Path} (h : compare path other = .eq) :
    tree.placeOf path = tree.placeOf other :=
  congrArg (List.foldl Place.along tree.current) (Std.LawfulEqCmp.eq_of_compare h)

theorem placeOf_join (tree : FileTree) (base : Path) (h : IsName name) :
    tree.placeOf (base.join ⟨String.ofList name⟩) = tree.placeOf base ++ [name] := by
  rw [placeOf, components_join base h, List.foldl_append]
  rfl

/-- A path that ends in a name leads to a place that does. -/
theorem getLast?_placeOf (tree : FileTree) (hname : path.fileName? = some name) :
    (tree.placeOf path).getLast? = some name := by
  obtain ⟨front, hfront⟩ := List.getLast?_eq_some_iff.mp (fileName?_eq_some_iff.mp hname)
  rw [placeOf, hfront, List.foldl_append]
  exact List.getLast?_concat

theorem follow_eq (place : Place) (segment : Text) :
    place.follow segment = (stepOf? segment).toList.foldl Place.along place := by
  rw [Place.follow, stepOf?]
  by_cases htrivial : isTrivial segment = true
  · rw [if_pos htrivial, if_pos htrivial]
    rfl
  · rw [if_neg htrivial, if_neg htrivial]
    by_cases hparent : segment = ['.', '.']
    · rw [if_pos hparent, if_pos hparent]
      rfl
    · rw [if_neg hparent, if_neg hparent]
      rfl

theorem foldl_follow (segments : List Text) (start : Place) :
    segments.foldl Place.follow start = (segments.filterMap stepOf?).foldl Place.along start := by
  induction segments generalizing start with
  | nil => rfl
  | cons segment segments ih =>
      rw [List.foldl_cons, ih, follow_eq]
      cases hstep : stepOf? segment with
      | none => rw [List.filterMap_cons_none hstep, Option.toList_none, List.foldl_nil]
      | some step => rw [List.filterMap_cons_some hstep, Option.toList_some, List.foldl_cons,
          List.foldl_nil, List.foldl_cons]

theorem origin_eq (tree : FileTree) (h : path.segments = first :: others) (hne : path.text ≠ "") :
    tree.origin path = if first = [] then [] else tree.current := by
  rw [origin]
  by_cases hroot : first = []
  · rw [if_pos ((isAbsolute_iff h hne).mpr hroot), if_pos hroot]
  · rw [if_neg (mt (isAbsolute_iff h hne).mp hroot), if_neg hroot]

theorem placeOf_eq_foldl_follow (tree : FileTree) (hne : path.text ≠ "") :
    tree.placeOf path = path.segments.foldl Place.follow (tree.origin path) := by
  obtain ⟨first, others, hsegments⟩ := List.exists_cons_of_ne_nil path.segments_ne_nil
  have hcons : first :: others ≠ [[]] := fun hnil =>
    hne (segments_eq_nil_iff.mp (hsegments.trans hnil))
  have hfirst : (leadingSteps first).foldl Place.along tree.current =
      (tree.origin path).follow first := by
    rw [leadingSteps, tree.origin_eq hsegments hne]
    by_cases hroot : first = []
    · rw [if_pos hroot, if_pos hroot, hroot]
      rfl
    · rw [if_neg hroot, if_neg hroot, follow_eq]
      by_cases hdot : first = ['.']
      · rw [if_pos hdot, hdot]
        rfl
      · rw [if_neg hdot]
  rw [placeOf, components_of_segments hsegments hcons, List.foldl_append, hfirst, ← foldl_follow,
    hsegments, List.foldl_cons]

/-! ## Finding a place -/

theorem step_eq_ok_iff : tree.step place segment = .ok start ↔
    tree.entry? place = some .directory ∧ Text.size segment ≤ nameLimit ∧
      place.follow segment = start := by
  rw [step]
  split
  · next hentry => simp [hentry]
  · next hentry =>
      rw [hentry]
      by_cases hsize : nameLimit < Text.size segment
      · rw [if_pos hsize]
        simp [Nat.not_le.mpr hsize]
      · rw [if_neg hsize]
        simp [Nat.not_lt.mp hsize]
  · next hother hentry =>
      rw [hentry]
      refine ⟨(nomatch ·), fun hdirectory => absurd (Option.some.inj hdirectory.1) hother⟩

theorem foldlM_step_append {front back : List Text}
    (h : (front ++ back).foldlM tree.step start = .ok place) :
    ∃ middle, front.foldlM tree.step start = .ok middle ∧ back.foldlM tree.step middle = .ok place := by
  rw [List.foldlM_append] at h
  cases hfront : front.foldlM tree.step start with
  | error fault =>
      rw [hfront] at h
      cases h
  | ok middle =>
      rw [hfront] at h
      exact ⟨middle, rfl, h⟩

theorem isDirectory_of_foldlM_step (hne : segments ≠ [])
    (h : segments.foldlM tree.step start = .ok place) : tree.entry? start = some .directory := by
  obtain ⟨segment, rest, rfl⟩ := List.exists_cons_of_ne_nil hne
  rw [List.foldlM_cons] at h
  cases hstep : tree.step start segment with
  | error fault =>
      rw [hstep] at h
      cases h
  | ok next => exact (step_eq_ok_iff.mp hstep).1

theorem eq_of_foldlM_step (h : segments.foldlM tree.step start = .ok place) :
    segments.foldl Place.follow start = place := by
  induction segments generalizing start with
  | nil => exact Except.ok.inj h
  | cons segment segments ih =>
      rw [List.foldlM_cons] at h
      cases hstep : tree.step start segment with
      | error fault =>
          rw [hstep] at h
          cases h
      | ok next =>
          rw [hstep] at h
          rw [List.foldl_cons, (step_eq_ok_iff.mp hstep).2.2]
          exact ih h

/-- The root is spelled with an empty part more than it has, which leads nowhere else. -/
theorem foldlM_step_ofSegments (hparts : ∀ segment ∈ first :: others, '/' ∉ segment)
    (hstart : first = [] → start = []) :
    (ofSegments (first :: others)).segments.foldlM tree.step start =
      (first :: others).foldlM tree.step start := by
  by_cases hroot : first :: others = [[]]
  · obtain ⟨rfl, rfl⟩ := List.cons.inj hroot
    obtain rfl := hstart rfl
    have hstep : tree.step [] [] = .ok [] := step_eq_ok_iff.mpr ⟨if_pos rfl, Nat.zero_le _, rfl⟩
    have hsegments : (ofSegments [[]]).segments = [[], []] := by decide
    simp only [hsegments, List.foldlM_cons, List.foldlM_nil, hstep]
    exact hstep
  · rw [segments_ofSegments hparts hroot]

theorem locate_eq_ok_iff : tree.locate path = .ok place ↔
    '\x00' ∉ path.text.toList ∧ path.text.utf8ByteSize ≤ pathLimit ∧ path.text ≠ "" ∧
      path.segments.foldlM tree.step (tree.origin path) = .ok place := by
  rw [locate, List.contains_eq_mem]
  by_cases hnull : '\x00' ∈ path.text.toList
  · simp [hnull]
  · by_cases hsize : pathLimit < path.text.utf8ByteSize
    · simp [hnull, hsize, Nat.not_le.mpr hsize]
    · by_cases hempty : path.text = ""
      · simp [hempty, pathLimit]
      · simp [hnull, hsize, Nat.not_lt.mp hsize, hempty]

/-- Where a tree finds a place under a path, the steps of the path lead there. -/
theorem placeOf_of_locate (h : tree.locate path = .ok place) : tree.placeOf path = place := by
  obtain ⟨-, -, hne, hsteps⟩ := locate_eq_ok_iff.mp h
  exact (placeOf_eq_foldl_follow tree hne).trans (eq_of_foldlM_step hsteps)

/-- Where a tree finds something of a name, it finds the directory that it is in. -/
theorem locate_directory (h : tree.locate path = .ok place) (hname : path.fileName? = some name)
    (hdirectory : path.directory ≠ ⟨""⟩) :
    ∃ above, tree.locate path.directory = .ok above ∧ tree.entry? above = some .directory ∧
      place = above ++ [name] := by
  obtain ⟨hnull, hsize, hne, hsteps⟩ := locate_eq_ok_iff.mp h
  obtain ⟨first, kept, below, hsegments, hbelow, habove⟩ := exists_directory hname hdirectory
  have hparts : ∀ segment ∈ first :: kept, '/' ∉ segment := by
    intro segment hmem
    have hsegment : segment ∈ path.segments := by
      rw [hsegments]
      exact List.mem_append_left below hmem
    exact not_mem_of_mem_segments hsegment
  have hcons : below ≠ [] := by
    rintro rfl
    cases hbelow
  have hcomponents : path.components = path.directory.components ++ [.name name] := by
    rw [habove, components_ofSegments hparts, components_of_segments hsegments (by simp [hcons]),
      List.filterMap_append, hbelow, List.append_assoc]
  rw [hsegments, ← List.cons_append] at hsteps
  -- the walk to the place comes by the directory, and steps below it only from directories
  obtain ⟨above, hfront, hback⟩ := foldlM_step_append hsteps
  obtain ⟨rest, htext⟩ := exists_text_ofSegments hsegments hcons
  rw [← habove] at htext
  have hsome : path.directory.text ≠ "" := fun hnil => hdirectory (congrArg Path.mk hnil)
  have horigin : tree.origin path.directory = tree.origin path := by
    rw [origin, origin, isAbsolute_append hsome htext]
  have hlocate : tree.locate path.directory = .ok above := by
    refine locate_eq_ok_iff.mpr ⟨fun hmem => hnull ?_, ?_, hsome, ?_⟩
    · rw [htext, String.toList_append]
      exact List.mem_append_left _ hmem
    · rw [htext, String.utf8ByteSize_append] at hsize
      omega
    · rw [horigin, habove, foldlM_step_ofSegments hparts]
      · exact hfront
      · intro hfirst
        rw [tree.origin_eq hsegments hne, if_pos hfirst]
  refine ⟨above, hlocate, isDirectory_of_foldlM_step hcons hback, ?_⟩
  rw [← placeOf_of_locate h, ← placeOf_of_locate hlocate, placeOf, placeOf, hcomponents,
    List.foldl_append]
  rfl

end FileTree

end CSharpTidy
