import CSharpTidy.Settings.Environment
import CSharpTidy.Settings.File
import CSharpTidy.Files.Tree

namespace CSharpTidy

/-- The directory in which a user keeps settings. Where the environment names no home, it is in that of
the user's account. -/
def Environment.userDirectory? (account : Option Path) (environment : Environment) : Option Path :=
  match (environment.get? "XDG_CONFIG_HOME").filter fun given => (⟨given⟩ : Path).isAbsolute with
  | some given => some ⟨given⟩
  | none =>
      let home := (environment.get? "HOME").filter (· ≠ "")
      ((home.map Path.mk).or account).map fun home => home.join ⟨".config"⟩

/-- What is asked of others in looking up configuration files: where a user keeps them, and what
settings the text of one makes. -/
structure SettingsSource where
  userDirectory? : Environment → Option Path
  parse : Text → Except String SettingsLayer

/-- The source on a machine that knows the home of the user's account, or knows none. -/
def SettingsSource.standard (account : Option Path := none) : SettingsSource where
  userDirectory? := Environment.userDirectory? account
  parse text := (SettingsLayer.ofText text).mapError Toml.Refusal.message

namespace Settings

def projectFile : Path := ⟨"sharpfmt.toml"⟩

/-- Reads a configuration file, if it is there. -/
def readFile? (parse : Text → Except String SettingsLayer) (tree : FileTree) (path : Path) :
    Except Fault (Option SettingsLayer) :=
  if !tree.isPresent path then .ok none
  else
    match tree.read path with
    | .error fault => .error (.config ("read config " ++ path.text ++ ": " ++ fault.message))
    | .ok text =>
        match parse text with
        | .error message => .error (.config ("parse config " ++ path.text ++ ": " ++ message))
        | .ok layer => .ok (some layer)

def userFile (directory : Path) : Path := (directory.join ⟨"sharpfmt"⟩).join ⟨"config.toml"⟩

/-- The file that is read alone, if one is given. -/
def soleFile? (environment : Environment) (explicit : Option Path) : Option Path :=
  explicit.orElse fun _ => (environment.get? "SHARPFMT_CONFIG").map Path.mk

/-- The files that are looked up. -/
def files (environment : Environment) (explicit : Option Path) (projectRoot : Path)
    (source : SettingsSource := .standard) : List Path :=
  match soleFile? environment explicit with
  | some path => [path]
  | none =>
      ((source.userDirectory? environment).map userFile).toList ++ [projectRoot.join projectFile]

/-- The layers that files make: a given file alone, which has to be there, or the file of the user
and then that of the project. -/
def fileLayers (source : SettingsSource) (tree : FileTree) (environment : Environment)
    (explicit : Option Path) (projectRoot : Path) : Except Fault (List SettingsLayer) :=
  match soleFile? environment explicit with
  | some path =>
      match readFile? source.parse tree path with
      | .error fault => .error fault
      | .ok none => .error (.notFound path)
      | .ok (some layer) => .ok [layer]
  | none => do
      let user ←
        match source.userDirectory? environment with
        | none => pure none
        | some directory => readFile? source.parse tree (userFile directory)
      let project ← readFile? source.parse tree (projectRoot.join projectFile)
      return user.toList ++ project.toList

/-- The defaults, then what the files say, then what the environment says. -/
def load (tree : FileTree) (environment : Environment) (explicit : Option Path)
    (projectRoot : Path) (source : SettingsSource := .standard) : Except Fault Settings :=
  match fileLayers source tree environment explicit projectRoot with
  | .error fault => .error fault
  | .ok layers =>
      match environment.layer with
      | .error fault => .error fault
      | .ok layer => .ok ((layers.foldl merge {}).merge layer)

end Settings

end CSharpTidy
