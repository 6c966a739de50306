import CSharpTidy.Changes
import CSharpTidy.Document

namespace CSharpTidy

structure Project where
  name : String
  path : Path
  documents : List DocumentId
deriving DecidableEq, Repr

/-- A snapshot of projects and of documents in the order of their numbers. -/
structure Solution where
  version : Nat
  projects : List Project
  documents : List Document
  reader : Reader

namespace Solution

def ids (solution : Solution) : List DocumentId := solution.documents.map Document.id

def document? (solution : Solution) (id : DocumentId) : Option Document :=
  solution.documents.find? fun document => document.id == id

def atPath? (solution : Solution) (path : Path) : Option Document :=
  solution.documents.find? fun document => compare document.path path == .eq

def text? (solution : Solution) (id : DocumentId) : Option Text :=
  (solution.document? id).map Document.text

def setText (solution : Solution) (id : DocumentId) (text : Text) :
    Except Fault (Solution × List Notice) :=
  match solution.document? id with
  | none => .error (.unknownDocument id)
  | some current =>
      let (updated, notices) := current.withText solution.reader text
      let documents := solution.documents.map fun document =>
        if document.id = id then updated else document
      .ok ({ solution with documents }, notices)

/-- The documents whose texts differ from those of another snapshot. -/
def changedFrom (solution base : Solution) : List DocumentId :=
  (solution.documents.filter fun document => base.text? document.id != some document.text).map
    Document.id

end Solution

namespace Changes

/-- The changes that would change something. Those to unknown documents stay. -/
def effective (changes : Changes) (base : Solution) : Changes :=
  SortedMap.filter (fun id text => base.text? id != some text) changes

end Changes

/-- A solution on its way of being put together. -/
structure Draft where
  reader : Reader
  projects : List Project := []
  documents : List Document := []
  notices : List Notice := []

namespace Draft

def addProject (draft : Draft) (name : String) (path : Path) : Draft :=
  { draft with projects := draft.projects ++ [⟨name, path, []⟩] }

def addNotice (draft : Draft) (notice : Notice) : Draft :=
  { draft with notices := draft.notices ++ [notice] }

/-- The projects with a document added to the last one. -/
def extendLast (id : DocumentId) : List Project → List Project
  | [] => []
  | [project] => [{ project with documents := project.documents ++ [id] }]
  | project :: rest => project :: extendLast id rest

/-- Adds a document, under the next free number, to the last project. -/
def addDocument (draft : Draft) (path : Path) (text : Text) : Draft :=
  let id : DocumentId := ⟨draft.documents.length⟩
  let (document, notices) := Document.parse draft.reader id path text
  { draft with
    projects := extendLast id draft.projects
    documents := draft.documents ++ [document]
    notices := draft.notices ++ notices }

def build (draft : Draft) : Solution × List Notice :=
  (⟨0, draft.projects, draft.documents, draft.reader⟩, draft.notices)

end Draft

end CSharpTidy
