import CSharpTidy.Loading.SolutionFile

/-!
# Solution files are read as they are written

A solution file lists projects, each on two lines, below lines of other things. An entry begins with a
mark that has a quote in it, and other lines have none, so each project is read where it is written and
nothing is read in between. The parts of its path come out of slashes of either kind.
-/

namespace CSharpTidy

namespace SolutionEntry

/-! ## Listings -/

/-- A part of a path between slashes of either kind. -/
structure PathPart where
  text : Text
  text_ne : text ≠ []
  plain : ∀ c ∈ text, c ≠ '"' ∧ c ≠ '/' ∧ c ≠ '\\'

inductive Slash where
  | forward
  | backward
deriving DecidableEq, Repr

def Slash.char : Slash → Char
  | forward => '/'
  | backward => '\\'

/-- A line that belongs to no entry. -/
structure OtherLine where
  text : Text
  unquoted : '"' ∉ text
  oneLine : '\n' ∉ text

def OtherLine.render (line : OtherLine) : Text := line.text ++ ['\n']

/-- A project as a solution file lists it, with the identifiers of its kind and of itself. -/
structure Listed where
  kind : Text
  name : Text
  first : PathPart
  others : List (Slash × PathPart)
  id : Text
  kind_closed : '\x7d' ∉ kind
  name_unquoted : '"' ∉ name
  id_oneLine : '\n' ∉ id

namespace Listed

def parts (project : Listed) : List Text :=
  project.first.text :: project.others.map fun other => other.2.text

def path (project : Listed) : Text :=
  project.first.text ++ project.others.flatMap fun other => other.1.char :: other.2.text

def opening : Text := "Project(\"\x7b".toList

/-- What follows the path on the line of a project. -/
def ending (project : Listed) : Text := ", \"\x7b".toList ++ project.id ++ "\x7d\"".toList

def closing : OtherLine := ⟨"EndProject".toList, by decide, by decide⟩

def render (project : Listed) : Text :=
  opening ++ (project.kind ++ '\x7d' :: '"' :: ')' :: ' ' :: '=' :: ' ' ::
    '"' :: (project.name ++ '"' :: ',' :: ' ' :: '"' :: (project.path ++ '"' ::
      (project.ending ++ '\n' :: closing.render))))

/-- The entry for a project: its name, and the path that its parts make one after another. -/
def entry (project : Listed) : SolutionEntry where
  name := String.ofList project.name
  path := project.parts.foldl (fun path part => path.join ⟨String.ofList part⟩) ⟨""⟩

end Listed

variable {text rest : Text} {c : Char}

/-! ## Paths -/

theorem split_eq_splitOnP (text : Text) :
    (text.split '\\').flatMap (Text.split '/') = text.splitOnP fun c => c == '\\' || c == '/' := by
  induction text with
  | nil => rfl
  | cons c text ih =>
      rw [List.splitOnP_cons_eq_if_modifyHead, ← ih, Text.split_eq_splitOn,
        List.splitOn_cons_eq_if_modifyHead, ← Text.split_eq_splitOn]
      by_cases hback : c = '\\'
      · simp [hback, Text.split]
      · obtain ⟨front, behind, hsplit⟩ := List.exists_cons_of_ne_nil
          (Text.split_eq_splitOn '\\' text ▸ List.splitOn_ne_nil '\\' text)
        rw [if_neg (by simpa using hback), hsplit, List.modifyHead_cons, List.flatMap_cons,
          List.flatMap_cons, Text.split_eq_splitOn, List.splitOn_cons_eq_if_modifyHead,
          ← Text.split_eq_splitOn]
        by_cases hforward : c = '/'
        · simp [hforward]
        · obtain ⟨first, others, hsplit'⟩ := List.exists_cons_of_ne_nil
            (Text.split_eq_splitOn '/' front ▸ List.splitOn_ne_nil '/' front)
          simp [hforward, hback, hsplit']

theorem PathPart.not_isSlash (part : PathPart) :
    ∀ c ∈ part.text, (c == '\\' || c == '/') = false := by
  intro c hmem
  obtain ⟨-, hforward, hback⟩ := part.plain c hmem
  simp [hforward, hback]

theorem split_path (first : PathPart) (others : List (Slash × PathPart)) :
    ((first.text ++ others.flatMap fun other => other.1.char :: other.2.text).split '\\').flatMap
        (Text.split '/') = first.text :: others.map fun other => other.2.text := by
  rw [split_eq_splitOnP]
  induction others generalizing first with
  | nil =>
      rw [List.flatMap_nil, List.append_nil, List.splitOnP_eq_singleton first.not_isSlash,
        List.map_nil]
  | cons other others ih =>
      obtain ⟨slash, next⟩ := other
      rw [List.flatMap_cons, List.cons_append,
        List.splitOnP_append_cons_of_forall_mem first.not_isSlash slash.char (by cases slash <;> rfl),
        ih, List.map_cons]

theorem Listed.pathOf_path (project : Listed) : pathOf project.path = project.entry.path := by
  rw [pathOf, Listed.path, split_path]
  rfl

theorem Listed.quote_notMem_path (project : Listed) : '"' ∉ project.path := by
  intro hmem
  rcases List.mem_append.mp hmem with hfirst | hothers
  · exact (project.first.plain _ hfirst).1 rfl
  · obtain ⟨⟨slash, part⟩, -, hother⟩ := List.mem_flatMap.mp hothers
    rcases List.mem_cons.mp hother with hslash | hpart
    · cases slash <;> cases hslash
    · exact (part.plain _ hpart).1 rfl

/-- Parts that are joined to a path stand behind it with slashes between. -/
theorem foldl_join (parts : List PathPart) {front : Text} (hne : front ≠ [])
    (hlast : front.getLast? ≠ some '/') :
    (parts.map PathPart.text).foldl (fun (path : Path) part => path.join ⟨String.ofList part⟩)
        ⟨String.ofList front⟩ =
      ⟨String.ofList (front ++ parts.flatMap fun part => '/' :: part.text)⟩ := by
  induction parts generalizing front with
  | nil => rw [List.map_nil, List.foldl_nil, List.flatMap_nil, List.append_nil]
  | cons part parts ih =>
      have hpart : part.text.head? ≠ some '/' := fun hhead =>
        (part.plain _ (List.mem_of_head? hhead)).2.1 rfl
      have hjoin : (⟨String.ofList front⟩ : Path).join ⟨String.ofList part.text⟩ =
          ⟨String.ofList (front ++ '/' :: part.text)⟩ := by
        rw [Path.join, Path.isAbsolute, String.toList_ofList, if_neg (by simpa using hpart), if_neg]
        · refine congrArg Path.mk (String.toList_inj.mp ?_)
          simp
        · simp [hne, hlast]
      have hend : (front ++ '/' :: part.text).getLast? ≠ some '/' := by
        have hbehind := List.getLast?_eq_some_getLast part.text_ne
        rw [List.append_cons, List.getLast?_append, hbehind, Option.some_or]
        exact fun heq => (part.plain _ (List.getLast_mem part.text_ne)).2.1 (Option.some.inj heq)
      rw [List.map_cons, List.foldl_cons, hjoin, ih (by simp) hend]
      simp

theorem intercalate_cons (first : Text) (others : List Text) :
    ['/'].intercalate (first :: others) = first ++ others.flatMap ('/' :: ·) := by
  induction others generalizing first with
  | nil => simp
  | cons next others ih => rw [List.intercalate_cons_cons, ih, List.flatMap_cons]; simp

theorem Listed.text_entry_path (project : Listed) :
    project.entry.path.text = String.ofList (['/'].intercalate project.parts) := by
  have hfirst : project.first.text.head? ≠ some '/' := fun hhead =>
    (project.first.plain _ (List.mem_of_head? hhead)).2.1 rfl
  have hlast : project.first.text.getLast? ≠ some '/' := fun hend =>
    (project.first.plain _ (List.mem_of_getLast? hend)).2.1 rfl
  have hjoin : (⟨""⟩ : Path).join ⟨String.ofList project.first.text⟩ =
      ⟨String.ofList project.first.text⟩ := by
    rw [Path.join, Path.isAbsolute, String.toList_ofList, if_neg (by simpa using hfirst), if_pos (by rfl)]
    exact congrArg Path.mk String.empty_append
  have hothers : project.others.map (fun other => other.2.text) =
      (project.others.map Prod.snd).map PathPart.text := by
    rw [List.map_map]
    rfl
  rw [entry, parts, List.foldl_cons, hjoin, intercalate_cons, hothers,
    foldl_join _ project.first.text_ne hlast, List.flatMap_map]
  simp only [List.flatMap_map]

/-! ## Entries -/

theorem dropBlanks_of_head (hc : Text.isBlank c = false) (text : Text) :
    Text.dropBlanks (c :: text) = c :: text := by
  rw [Text.dropBlanks, List.dropWhile_cons_of_neg (by simp [hc])]

theorem dropBlanks_space (text : Text) : Text.dropBlanks (' ' :: text) = text.dropBlanks := by
  rw [Text.dropBlanks, List.dropWhile_cons_of_pos (by decide)]
  rfl

theorem read?_congr {first second : Text} (h : first.dropBlanks = second.dropBlanks) :
    read? first = read? second := by
  rw [read?, read?, h]

theorem read?_eq_some {opened closing closed named after placed : Text} {kind name path : Text}
    (hopened : text.dropBlanks.skip? "Project(\"\x7b".toList = some opened)
    (hkind : opened.cutAt? '\x7d' = some (kind, closing))
    (hclosed : closing.skip? "\")".toList = some closed) (hequals : mark? '=' closed = some named)
    (hname : quoted? named = some (name, after)) (hcomma : mark? ',' after = some placed)
    (hpath : quoted? placed = some (path, rest)) :
    read? text = some (⟨String.ofList name, pathOf path⟩, rest) := by
  simp only [read?, hopened, hkind, hclosed, hequals, hname, hcomma, hpath, bind, pure,
    Option.bind_some]

theorem quoted?_append {value : Text} (h : '"' ∉ value) (text : Text) :
    quoted? ('"' :: (value ++ '"' :: text)) = some (value, text) := by
  rw [quoted?, Text.skip?, if_pos rfl, Text.skip?, Option.bind_some, Text.cutAt?_append h]

theorem mark?_quote (h : text.dropBlanks = c :: ' ' :: '"' :: rest) :
    mark? c text = some ('"' :: rest) := by
  rw [mark?, h, Text.skip?, if_pos rfl, Text.skip?, Option.map_some, dropBlanks_space,
    dropBlanks_of_head (by decide)]

theorem read?_render (project : Listed) (rest : Text) :
    read? (project.render ++ rest) =
      some (project.entry, project.ending ++ '\n' :: (Listed.closing.render ++ rest)) := by
  have hopening : Listed.opening = 'P' :: "roject(\"\x7b".toList := by decide
  have hclosing : "\")".toList = ['"', ')'] := by decide
  have hrender : project.render ++ rest = Listed.opening ++ (project.kind ++ '\x7d' ::
      '"' :: ')' :: ' ' :: '=' :: ' ' :: '"' :: (project.name ++ '"' :: ',' :: ' ' :: '"' ::
        (project.path ++ '"' :: (project.ending ++ '\n' :: (Listed.closing.render ++ rest))))) := by
    simp only [Listed.render, List.append_assoc, List.cons_append]
  have hopened : (project.render ++ rest).dropBlanks = project.render ++ rest := by
    rw [hrender, hopening, List.cons_append, dropBlanks_of_head (by decide)]
  rw [← hopened] at hrender
  have hread := read?_eq_some (by rw [hrender]; exact Text.skip?_append Listed.opening _)
    (Text.cutAt?_append project.kind_closed _) (by rw [hclosing]; exact Text.skip?_append ['"', ')'] _)
    (mark?_quote (by rw [dropBlanks_space, dropBlanks_of_head (by decide)]))
    (quoted?_append project.name_unquoted _) (mark?_quote (dropBlanks_of_head (by decide) _))
    (quoted?_append project.quote_notMem_path _)
  rwa [project.pathOf_path] at hread

/-! ## Files -/

theorem readAll_eq (text : Text) : readAll text =
    match read? text with
    | some (entry, rest) =>
        match rest.cutAt? '\n' with
        | some (_, next) => entry :: readAll next
        | none => [entry]
    | none =>
        match text.cutAt? '\n' with
        | some (_, next) => readAll next
        | none => [] := by
  rw [readAll]
  split
  · next entry rest hread =>
      rw [hread]
      dsimp only
      split
      · next hcut => rw [hcut]
      · next hcut => rw [hcut]
  · next hread =>
      rw [hread]
      dsimp only
      split
      · next hcut => rw [hcut]
      · next hcut => rw [hcut]

theorem opens_of_read? {found : SolutionEntry × Text} (h : read? text = some found) :
    ∃ behind, text.dropBlanks = Listed.opening ++ behind := by
  simp only [read?, bind, Option.bind_eq_some_iff] at h
  obtain ⟨opened, hopened, -⟩ := h
  exact ⟨opened, Text.eq_append_of_skip? hopened⟩

theorem read?_line (line : OtherLine) (h : line.text.dropBlanks ≠ []) (text : Text) :
    read? (line.text ++ '\n' :: text) = none := by
  refine Option.eq_none_iff_forall_ne_some.mpr fun found hread => ?_
  obtain ⟨behind, hopens⟩ := opens_of_read? hread
  rw [Text.dropBlanks, List.dropWhile_append, if_neg (by simpa [Text.dropBlanks] using h)] at hopens
  have hsuffix : ∀ c ∈ List.dropWhile Text.isBlank line.text, c ∈ line.text := fun c hmem =>
    (List.dropWhile_sublist Text.isBlank).subset hmem
  rcases List.append_eq_append_iff.mp hopens with ⟨front, hopening, hbehind⟩ | ⟨front, hline, -⟩
  · cases front with
    | nil =>
        have hquote : '"' ∈ Listed.opening := by decide
        rw [hopening, List.append_nil] at hquote
        exact line.unquoted (hsuffix _ hquote)
    | cons c front =>
        obtain ⟨rfl, -⟩ := List.cons.inj hbehind
        have hfeed : '\n' ∉ Listed.opening := by decide
        rw [hopening] at hfeed
        exact hfeed (List.mem_append_right _ List.mem_cons_self)
  · refine line.unquoted (hsuffix _ ?_)
    rw [hline]
    exact List.mem_append_left _ (by decide)

theorem readAll_line (line : OtherLine) (text : Text) :
    readAll (line.render ++ text) = readAll text := by
  have hcut := Text.cutAt?_append line.oneLine text
  rw [OtherLine.render, List.append_assoc, List.singleton_append]
  by_cases hblank : line.text.dropBlanks = []
  · -- an entry behind a blank line is read from that line on
    have hcongr : read? (line.text ++ '\n' :: text) = read? text := by
      refine read?_congr ?_
      rw [Text.dropBlanks, List.dropWhile_append, if_pos (by simpa [Text.dropBlanks] using hblank),
        List.dropWhile_cons_of_pos (by decide)]
      rfl
    rw [readAll_eq, hcongr, hcut]
    cases hread : read? text with
    | none => rfl
    | some found => rw [readAll_eq text, hread]
  · rw [readAll_eq, read?_line line hblank, hcut]

theorem readAll_lines (lines : List OtherLine) (text : Text) :
    readAll (lines.flatMap OtherLine.render ++ text) = readAll text := by
  induction lines with
  | nil => rfl
  | cons line lines ih => rw [List.flatMap_cons, List.append_assoc, readAll_line, ih]

theorem readAll_project (project : Listed) (text : Text) :
    readAll (project.render ++ text) = project.entry :: readAll text := by
  have hending : '\n' ∉ project.ending := by
    rw [Listed.ending, List.mem_append, List.mem_append, or_assoc, not_or, not_or]
    exact ⟨by decide, project.id_oneLine, by decide⟩
  rw [readAll_eq, read?_render]
  dsimp only
  rw [Text.cutAt?_append hending]
  dsimp only
  rw [readAll_line]

theorem readAll_projects (projects : List Listed) :
    readAll (projects.flatMap Listed.render) = projects.map Listed.entry := by
  induction projects with
  | nil =>
      rw [List.flatMap_nil, List.map_nil, readAll_eq]
      rfl
  | cons project projects ih =>
      rw [List.flatMap_cons, readAll_project, ih, List.map_cons]

/-- **Solution files are read as they are written.** Below any lines without quotes, the entries are the
projects in the order in which they are listed, each under its name as it stands and at the path that
its parts make one after another, with forward slashes whichever they are written with. -/
theorem readAll_render (header : List OtherLine) (projects : List Listed) :
    readAll (header.flatMap OtherLine.render ++ projects.flatMap Listed.render) =
        projects.map Listed.entry ∧
      ∀ project ∈ projects,
        project.entry.path.text = String.ofList (['/'].intercalate project.parts) := by
  rw [readAll_lines, readAll_projects]
  exact ⟨rfl, fun project _ => project.text_entry_path⟩

/-- A project whose name goes over a line feed, with slashes of both kinds in its path. -/
def twoLines : Listed where
  kind := "FAE04EC0".toList
  name := "A\nProject(".toList
  first := ⟨"src".toList, by decide, by simp⟩
  others := [(.backward, ⟨"A b".toList, by decide, by simp⟩),
    (.forward, ⟨"A.csproj".toList, by decide, by simp⟩)]
  id := "00000000".toList
  kind_closed := by decide
  name_unquoted := by decide
  id_oneLine := by decide

theorem readAll_render_of_twoLines :
    readAll ("Format Version 12.00\nProject(\"\x7bFAE04EC0\x7d\") = \"A\nProject(\", ".toList ++
        "\"src\\A b/A.csproj\", \"\x7b00000000\x7d\"\nEndProject\n".toList) =
      [⟨"A\nProject(", ⟨"src/A b/A.csproj"⟩⟩] := by
  have htext : "Format Version 12.00\nProject(\"\x7bFAE04EC0\x7d\") = \"A\nProject(\", ".toList ++
      "\"src\\A b/A.csproj\", \"\x7b00000000\x7d\"\nEndProject\n".toList =
        [(⟨"Format Version 12.00".toList, by decide, by decide⟩ : OtherLine)].flatMap OtherLine.render ++
          [twoLines].flatMap Listed.render := by decide +kernel
  have hentry : twoLines.entry = ⟨"A\nProject(", ⟨"src/A b/A.csproj"⟩⟩ := by decide +kernel
  rw [htext, (readAll_render [⟨"Format Version 12.00".toList, by decide, by decide⟩] [twoLines]).1,
    List.map_singleton, hentry]

end SolutionEntry

end CSharpTidy
