import CSharpTidy.Solution
import CSharpTidy.Workspace.Store

namespace CSharpTidy

/-- The live snapshot and the store that holds its texts. -/
structure Workspace (σ : Type) where
  live : Solution
  store : σ

/-- A snapshot with changes made to it, ready to be committed. -/
structure Staging where
  solution : Solution
  changed : List DocumentId
  notices : List Notice

structure Commit where
  version : Nat
  changed : List DocumentId
deriving DecidableEq, Repr

namespace Staging

def apply (staged : Staging) : List (DocumentId × Text) → Except Fault Staging
  | [] => .ok staged
  | (id, text) :: rest =>
      match staged.solution.setText id text with
      | .error fault => .error fault
      | .ok (solution, notices) =>
          apply ⟨solution, staged.changed ++ [id], staged.notices ++ notices⟩ rest

end Staging

/-- Makes the changes that change something to a snapshot. -/
def stage (base : Solution) (changes : Changes) : Except Fault Staging :=
  Staging.apply ⟨base, [], []⟩ (changes.effective base).entries

namespace Workspace

variable {σ : Type} [Store σ]

/-- The files that differ between the live snapshot and a proposed one. -/
def fileChanges (live proposed : Solution) : List FileChange :=
  (proposed.changedFrom live).filterMap fun id =>
    (proposed.document? id).map fun document =>
      ⟨document.path, (live.text? id).getD [], document.text⟩

/-- Stores a proposed snapshot and makes it the live one, unless the live one has moved past the
version it was built on. -/
def accept (workspace : Workspace σ) (proposed : Solution) :
    Except Fault Bool × Workspace σ :=
  if proposed.version ≠ workspace.live.version then (.ok false, workspace)
  else
    match Store.writeAll workspace.store (fileChanges workspace.live proposed) with
    -- a store that fails may have been changed all the same
    | (.error fault, store) => (.error fault, { workspace with store })
    | (.ok _, store) =>
        (.ok true, ⟨{ proposed with version := workspace.live.version + 1 }, store⟩)

def staleFault (base count : Nat) : Fault :=
  .commitRejected ("workspace moved past version " ++ toString base ++ " while " ++
    toString count ++ " document(s) were being edited")

def refusedFault (fault : Fault) : Fault :=
  .commitRejected ("store refused change set: " ++ fault.message)

/-- Commits staged changes. Where there are none, nothing happens. -/
def commit (workspace : Workspace σ) (staged : Staging) :
    Except Fault Commit × Workspace σ :=
  if staged.changed.isEmpty then (.ok ⟨workspace.live.version, []⟩, workspace)
  else
    match workspace.accept staged.solution with
    | (.ok true, next) => (.ok ⟨next.live.version, staged.changed⟩, next)
    | (.ok false, next) =>
        (.error (staleFault staged.solution.version staged.changed.length), next)
    | (.error fault, next) => (.error (refusedFault fault), next)

def apply (workspace : Workspace σ) (base : Solution) (changes : Changes) :
    Except Fault Commit × Workspace σ :=
  match stage base changes with
  | .error fault => (.error fault, workspace)
  | .ok staged => workspace.commit staged

end Workspace

end CSharpTidy
