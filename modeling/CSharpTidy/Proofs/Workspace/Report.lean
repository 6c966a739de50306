import CSharpTidy.Proofs.Workspace.Commit
import CSharpTidy.Proofs.Workspace.Loaded

/-!
# What a report names

A report names the documents that the changes give another text than the base has. The commit brings
the live snapshot to the texts of the staged one, and writes what differs between these two. A base
that already differs from the live snapshot sets the two apart.
-/

namespace CSharpTidy

open Solution (Variant)

/-- What becomes of a snapshot by putting texts into it, one after another. -/
inductive Solution.Derived (taken : Solution) : Solution → Prop
  | taken : Derived taken taken
  | setText {base next : Solution} {id : DocumentId} {text : Text} {notices : List Notice}
      (h : Derived taken base) (hset : base.setText id text = .ok (next, notices)) :
      Derived taken next

theorem Solution.Derived.variant {taken base : Solution} (h : taken.Derived base)
    (htaken : taken.Sound) : taken.Variant base := by
  induction h with
  | taken => exact .refl htaken
  | setText _ hset ih => exact ih.trans (Variant.of_setText ih.sound hset).1

/-- The text of a document once changes are made to a snapshot. -/
def Changes.onto (changes : Changes) (base : Solution) (id : DocumentId) : Option Text :=
  (changes.get? id).or (base.text? id)

/-- The changes that stay are those that give another text. -/
theorem Changes.mem_keys_effective_iff {changes : Changes} (h : changes.Ordered) {base : Solution}
    {id : DocumentId} :
    id ∈ (changes.effective base).keys ↔ changes.onto base id ≠ base.text? id := by
  rw [(Changes.ordered_effective h base).mem_keys_iff, Changes.get?_effective h, Changes.onto]
  cases changes.get? id with
  | none => simp
  | some text =>
      by_cases hsame : base.text? id = some text
      · simp [Option.filter, hsame]
      · simp [Option.filter, hsame, Ne.symm hsame]

/-! ## What is written -/

/-- A store that keeps a record of what it has written. -/
structure Recording (σ : Type) where
  store : σ
  written : List FileChange

namespace Recording

variable {σ : Type} [Store σ] {recording next : Recording σ} {writes : List FileChange}

def writeAll (recording : Recording σ) (writes : List FileChange) :
    Except Fault Unit × Recording σ :=
  match Store.writeAll recording.store writes with
  | (.error fault, store) => (.error fault, { recording with store })
  | (.ok _, store) => (.ok (), ⟨store, recording.written ++ writes⟩)

instance : Store (Recording σ) := ⟨fun recording => Store.read recording.store, writeAll⟩

theorem writeAll_cases (recording : Recording σ) (writes : List FileChange) :
    (∃ fault store, Store.writeAll recording.store writes = (.error fault, store) ∧
        Store.writeAll recording writes = (.error fault, { recording with store })) ∨
      ∃ store, Store.writeAll recording.store writes = (.ok (), store) ∧
        Store.writeAll recording writes = (.ok (), ⟨store, recording.written ++ writes⟩) := by
  change (∃ fault store, _ ∧ recording.writeAll writes = _) ∨
    ∃ store, _ ∧ recording.writeAll writes = _
  rw [writeAll]
  rcases Store.writeAll recording.store writes with ⟨fault | _, store⟩
  · exact .inl ⟨fault, store, rfl, rfl⟩
  · exact .inr ⟨store, rfl, rfl⟩

theorem written_of_writeAll_ok (h : Store.writeAll recording writes = (.ok (), next)) :
    next.written = recording.written ++ writes := by
  rcases recording.writeAll_cases writes with ⟨fault, store, -, hwrite⟩ | ⟨store, -, hwrite⟩
  · rw [hwrite] at h
    cases h
  · exact congrArg written (Prod.mk.inj (h.symm.trans hwrite)).2

end Recording

namespace Workspace

variable {σ : Type}

def record (workspace : Workspace σ) : Workspace (Recording σ) :=
  ⟨workspace.live, ⟨workspace.store, []⟩⟩

def forget (recorded : Workspace (Recording σ)) : Workspace σ :=
  ⟨recorded.live, recorded.store.store⟩

@[simp]
theorem live_forget (recorded : Workspace (Recording σ)) : recorded.forget.live = recorded.live := rfl

@[simp]
theorem store_forget (recorded : Workspace (Recording σ)) :
    recorded.forget.store = recorded.store.store := rfl

variable [Store σ] {workspace next : Workspace σ} {taken base : Solution} {changes : Changes}
  {report : Commit}

theorem accept_forget (recorded : Workspace (Recording σ)) (proposed : Solution) :
    recorded.forget.accept proposed = (recorded.accept proposed).map id forget := by
  rw [accept, accept, live_forget, store_forget]
  split
  · rfl
  · rcases recorded.store.writeAll_cases (fileChanges recorded.live proposed) with
      ⟨fault, store, hwrite, hrecorded⟩ | ⟨store, hwrite, hrecorded⟩
    · rw [hwrite, hrecorded]
      rfl
    · rw [hwrite, hrecorded]
      rfl

theorem commit_forget (recorded : Workspace (Recording σ)) (staged : Staging) :
    recorded.forget.commit staged = (recorded.commit staged).map id forget := by
  rw [commit, commit, accept_forget]
  split
  · rfl
  · rcases recorded.accept staged.solution with ⟨fault | accepted, next⟩
    · rfl
    · cases accepted <;> rfl

theorem apply_forget (recorded : Workspace (Recording σ)) (base : Solution) (changes : Changes) :
    recorded.forget.apply base changes = (recorded.apply base changes).map id forget := by
  rw [apply, apply]
  cases stage base changes with
  | error fault => rfl
  | ok staged => exact commit_forget recorded staged

def writes (workspace : Workspace σ) (base : Solution) (changes : Changes) : List FileChange :=
  (workspace.record.apply base changes).2.store.written

theorem accept_record_of_ok {proposed : Solution}
    (h : (workspace.record.accept proposed).1 = .ok true) :
    (workspace.record.accept proposed).2.live =
        { proposed with version := workspace.live.version + 1 } ∧
      (workspace.record.accept proposed).2.store.written = fileChanges workspace.live proposed := by
  rcases workspace.record.accept_cases proposed with
    ⟨-, haccept⟩ | ⟨-, ⟨fault, store, -, haccept⟩ | ⟨store, hwrite, haccept⟩⟩
  · rw [haccept] at h
    cases h
  · rw [haccept] at h
    cases h
  · rw [haccept]
    exact ⟨rfl, Recording.written_of_writeAll_ok hwrite⟩

/-- What applying changes has done when it goes well: nothing, or the staged snapshot is the live one
and what differed is written. -/
theorem apply_cases (h : base.Sound) (hchanges : changes.Ordered)
    (hok : workspace.apply base changes = (.ok report, next)) :
    ∃ staged, stage base changes = .ok staged ∧ Staged base changes staged ∧
      report.changed = staged.changed ∧
      ((staged.changed = [] ∧ next = workspace ∧ workspace.writes base changes = []) ∨
        (staged.changed ≠ [] ∧
          next.live = { staged.solution with version := workspace.live.version + 1 } ∧
          workspace.writes base changes = fileChanges workspace.live staged.solution)) := by
  have hforget := (apply_forget workspace.record base changes).symm.trans hok
  have hwrites : workspace.writes base changes =
      (workspace.record.apply base changes).2.store.written := rfl
  rcases stage_cases h hchanges with ⟨staged, hstage, hstaged⟩ | ⟨id, -, hstage⟩
  · have happly : workspace.record.apply base changes = workspace.record.commit staged := by
      rw [apply, hstage]
    rw [happly] at hforget hwrites
    refine ⟨staged, hstage, hstaged, ?_⟩
    rcases workspace.record.commit_cases staged with
      ⟨hchanged, hcommit⟩ | ⟨hchanged, ⟨haccepted, hcommit⟩ | ⟨-, reason, hcommit⟩⟩
    · rw [hcommit] at hforget hwrites
      obtain ⟨hreport, hnext⟩ := Prod.mk.inj hforget
      obtain rfl := Except.ok.inj hreport
      exact ⟨hchanged.symm, .inl ⟨hchanged, hnext.symm, hwrites⟩⟩
    · rw [hcommit] at hforget hwrites
      obtain ⟨hreport, rfl⟩ := Prod.mk.inj hforget
      obtain rfl := Except.ok.inj hreport
      obtain ⟨hlive, hwritten⟩ := accept_record_of_ok haccepted
      exact ⟨rfl, .inr ⟨hchanged, hlive, hwrites.trans hwritten⟩⟩
    · rw [hcommit] at hforget
      cases (Prod.mk.inj hforget).1
  · rw [apply, hstage] at hok
    cases (Prod.mk.inj hok).1

/-! ## Exact reports -/

/-- The report names the documents that have another live text than before, and what the staged
snapshot changes is written. -/
structure ReportsExactly (workspace : Workspace σ) (base : Solution) (changes : Changes)
    (report : Commit) (next : Workspace σ) : Prop where
  named : ∀ id, id ∈ report.changed ↔ next.live.text? id ≠ workspace.live.text? id
  stored : ∀ staged, stage base changes = .ok staged → ∀ document ∈ staged.solution.documents,
    workspace.live.text? document.id ≠ some document.text →
    ∃ write ∈ workspace.writes base changes,
      write.path = document.path ∧ write.text = document.text

/-- Being changed means the same over the base as over the live snapshot. -/
def SameChanges (live base : Solution) (changes : Changes) : Prop :=
  ∀ id, changes.onto base id ≠ base.text? id ↔ changes.onto base id ≠ live.text? id

theorem mem_changed_iff (h : base.Sound) (hchanges : changes.Ordered)
    (hok : workspace.apply base changes = (.ok report, next)) (id : DocumentId) :
    id ∈ report.changed ↔ changes.onto base id ≠ base.text? id := by
  obtain ⟨staged, -, hstaged, hchanged, -⟩ := apply_cases h hchanges hok
  rw [hchanged, hstaged.changed, Changes.mem_keys_effective_iff hchanges]

/-- Where nothing is committed, a report is exact if the staged snapshot has the live texts. -/
theorem reportsExactly_unchanged_iff {staged : Staging} (hids : base.ids = workspace.live.ids)
    (hstage : stage base changes = .ok staged) (hstaged : Staged base changes staged)
    (hnone : report.changed = []) (hwrites : workspace.writes base changes = []) :
    workspace.ReportsExactly base changes report workspace ↔
      ∀ id, changes.onto base id = workspace.live.text? id := by
  have hsound := hstaged.variant.sound
  constructor
  · intro hexact id
    rw [Changes.onto, ← hstaged.texts]
    refine (Solution.changedFrom_eq_nil_iff hsound.nodup (hstaged.variant.ids_eq.trans hids)).mp ?_ id
    refine List.eq_nil_iff_forall_not_mem.mpr fun id hmem => ?_
    obtain ⟨text, htext, hdiffers⟩ := (Solution.mem_changedFrom_iff hsound.nodup).mp hmem
    obtain ⟨document, hdocument, rfl, rfl⟩ := (Solution.text?_eq_some_iff hsound.nodup).mp htext
    obtain ⟨write, hwrite, -⟩ := hexact.stored staged hstage document hdocument hdiffers
    rw [hwrites] at hwrite
    cases hwrite
  · intro hsame
    refine ⟨fun id => by simp [hnone], fun other hother document hdocument hdiffers => ?_⟩
    obtain rfl := Except.ok.inj (hstage.symm.trans hother)
    rw [← hsame, Changes.onto, ← hstaged.texts,
      Solution.text?_of_mem hsound.nodup hdocument] at hdiffers
    exact absurd rfl hdiffers

/-- Where the staged snapshot becomes the live one, a report is exact if it names the documents in
which the two differ. -/
theorem reportsExactly_swapped_iff {staged : Staging} (hstage : stage base changes = .ok staged)
    (hstaged : Staged base changes staged)
    (hnext : next.live = { staged.solution with version := workspace.live.version + 1 })
    (hwrites : workspace.writes base changes = fileChanges workspace.live staged.solution) :
    workspace.ReportsExactly base changes report next ↔
      ∀ id, id ∈ report.changed ↔ changes.onto base id ≠ workspace.live.text? id := by
  have htexts : ∀ id, next.live.text? id = changes.onto base id := by
    rw [hnext]
    exact hstaged.texts
  constructor
  · intro hexact id
    rw [hexact.named id, htexts]
  · intro hnamed
    refine ⟨fun id => by rw [hnamed id, htexts], fun other hother document hdocument hdiffers => ?_⟩
    obtain rfl := Except.ok.inj (hstage.symm.trans hother)
    have hmem : (document.path, document.text) ∈ written workspace.live staged.solution :=
      (mem_written_iff hstaged.variant.sound).mpr ⟨document, hdocument, rfl, rfl, hdiffers⟩
    obtain ⟨write, hwrite, heq⟩ := List.mem_map.mp hmem
    exact ⟨write, hwrites ▸ hwrite, (Prod.mk.inj heq).1, (Prod.mk.inj heq).2⟩

theorem reportsExactly_iff (hbase : workspace.live.Variant base) (hchanges : changes.Ordered)
    (hok : workspace.apply base changes = (.ok report, next)) :
    workspace.ReportsExactly base changes report next ↔
      SameChanges workspace.live base changes := by
  have hchanged := mem_changed_iff hbase.sound hchanges hok
  obtain ⟨staged, hstage, hstaged, hreport, ⟨hnone, rfl, hwrites⟩ | ⟨-, hnext, hwrites⟩⟩ :=
    apply_cases hbase.sound hchanges hok
  · have hkept : ∀ id, changes.onto base id = base.text? id := by
      simpa [hreport, hnone] using hchanged
    rw [reportsExactly_unchanged_iff hbase.ids_eq hstage hstaged (hreport.trans hnone) hwrites]
    simp [SameChanges, hkept]
  · rw [reportsExactly_swapped_iff hstage hstaged hnext hwrites]
    exact forall_congr' fun id => by rw [hchanged id]

theorem reportsExactly_of_texts (hbase : workspace.live.Variant base) (hchanges : changes.Ordered)
    (htexts : ∀ id, base.text? id = workspace.live.text? id)
    (hok : workspace.apply base changes = (.ok report, next)) :
    workspace.ReportsExactly base changes report next :=
  (reportsExactly_iff hbase hchanges hok).mpr fun id => by rw [htexts id]

/-- A report names the documents that the changes give another text than the base has. It is exact just
where these are the documents that get another text than the live one. -/
theorem report_exact_iff (htaken : workspace.live.Variant taken) (hbase : taken.Derived base)
    (hchanges : changes.Ordered) (hok : workspace.apply base changes = (.ok report, next)) :
    (∀ id, id ∈ report.changed ↔ changes.onto base id ≠ base.text? id) ∧
    (workspace.ReportsExactly base changes report next ↔
      SameChanges workspace.live base changes) :=
  have hvariant := htaken.trans (hbase.variant htaken.sound)
  ⟨mem_changed_iff hvariant.sound hchanges hok, reportsExactly_iff hvariant hchanges hok⟩

/-- Two files in memory, each with one directive. -/
def twoFiles : Workspace MapStore where
  live := (((({ reader := CSharp.reader } : Draft).addProject "App" ⟨"App.csproj"⟩).addDocument ⟨"A.cs"⟩
    "using A;\n".toList).addDocument ⟨"B.cs"⟩ "using B;\n".toList).build.1
  store := (MapStore.insert {} ⟨"A.cs"⟩ "using A;\n".toList).insert ⟨"B.cs"⟩ "using B;\n".toList

theorem sound_twoFiles : twoFiles.live.Sound :=
  ((((Draft.numbered_empty _).addProject _ _).addDocument _ _).addDocument _ _).sound_build

/-- The base has another text for the first file, and the changes have new texts for both. -/
theorem report_exact_of_both :
    ∃ (base : Solution) (changes : Changes) (report : Commit) (next : Workspace MapStore),
      twoFiles.live.Variant twoFiles.live ∧ twoFiles.live.Derived base ∧ changes.Ordered ∧
      twoFiles.apply base changes = (.ok report, next) ∧ report.changed = [⟨0⟩, ⟨1⟩] ∧
      twoFiles.ReportsExactly base changes report next := by
  let changes : Changes := ⟨[(⟨0⟩, "using Y;\n".toList), (⟨1⟩, "using Z;\n".toList)]⟩
  obtain ⟨base, notices, hset⟩ :
      ∃ base notices, twoFiles.live.setText ⟨0⟩ "using X;\n".toList = .ok (base, notices) :=
    ⟨_, _, rfl⟩
  have hlive : twoFiles.live.Variant twoFiles.live := .refl sound_twoFiles
  have hbase : twoFiles.live.Derived base := .setText .taken hset
  have hordered : changes.Ordered := by decide
  obtain ⟨report, next, hok, hchanged⟩ : ∃ report next,
      twoFiles.apply base changes = (.ok report, next) ∧ report.changed = [⟨0⟩, ⟨1⟩] := by
    cases hset
    exact ⟨_, _, rfl, rfl⟩
  refine ⟨base, changes, report, next, hlive, hbase, hordered, hok, hchanged,
    (report_exact_iff hlive hbase hordered hok).2.mpr ?_⟩
  cases hset
  rintro ⟨_ | _ | index⟩
  · decide +kernel
  · decide +kernel
  · exact iff_of_false (not_not_intro rfl) (not_not_intro rfl)

/-- The base has another text for the first file, the changes have one for the second only. Both files
change, and the report names the second. -/
theorem report_misses_document :
    ∃ (base : Solution) (notices : List Notice) (report : Commit) (next : Workspace MapStore),
      twoFiles.live.Sound ∧
      twoFiles.live.setText ⟨0⟩ "using X;\n".toList = .ok (base, notices) ∧
      twoFiles.apply base ⟨[(⟨1⟩, "using Y;\n".toList)]⟩ = (.ok report, next) ∧
      report.changed = [⟨1⟩] ∧
      twoFiles.live.text? ⟨0⟩ = some "using A;\n".toList ∧
      next.live.text? ⟨0⟩ = some "using X;\n".toList ∧
      ¬twoFiles.ReportsExactly base ⟨[(⟨1⟩, "using Y;\n".toList)]⟩ report next := by
  obtain ⟨base, notices, hset⟩ :
      ∃ base notices, twoFiles.live.setText ⟨0⟩ "using X;\n".toList = .ok (base, notices) :=
    ⟨_, _, rfl⟩
  obtain ⟨report, next, hok, hchanged, hnext⟩ : ∃ report next,
      twoFiles.apply base ⟨[(⟨1⟩, "using Y;\n".toList)]⟩ = (.ok report, next) ∧
      report.changed = [⟨1⟩] ∧ next.live.text? ⟨0⟩ = some "using X;\n".toList := by
    cases hset
    exact ⟨_, _, rfl, rfl, rfl⟩
  refine ⟨base, notices, report, next, sound_twoFiles, hset, hok, hchanged, rfl, hnext,
    fun hexact => ?_⟩
  have hmissed : (⟨0⟩ : DocumentId) ∈ report.changed :=
    (hexact.named ⟨0⟩).mpr (by rw [hnext]; decide +kernel)
  rw [hchanged] at hmissed
  exact absurd hmissed (by decide)

end Workspace

end CSharpTidy
