/- # Projects

The project of a workspace: its compiler options and its files.  The nearest configuration decides
about both; one that cannot be read counts as an empty one.
-/
import ComponentHost.Project.Files

namespace ComponentHost

/-- A project. -/
structure Project where
  config : Option String
  options : CompilerOptions
  /-- Normal paths of its files, in order. -/
  files : List String

namespace Project

/-- Names of configurations; a file of the first name wins over one of the second, however near
that is. -/
def configNames : List String := ["tsconfig.json", "jsconfig.json"]

/-- The configuration of a directory. -/
def findConfig? (disk : FileTree) (dir : String) : Option String :=
  configNames.findSome? fun name => disk.nearest? name dir

/-- What a configuration leaves out if it does not say. -/
def defaultExclusions : List String := ["node_modules", "bower_components", "jspm_packages"]

/-- The project of a configuration.  Without patterns to include it has all files of the directory,
unless it lists files. -/
def ofConfig (disk : FileTree) (dir path : String) (c : Config) : Project :=
  let options := CompilerOptions.ofMembers c.options
  let files := c.files.getD ⟨dir, []⟩
  let including := c.including.getD ⟨dir, if files.items.isEmpty then ["**/*"] else []⟩
  let excluding := c.excluding.getD ⟨dir, defaultExclusions⟩
  ⟨some path, options, filesOfConfig disk files including excluding options⟩

/-- The project of a workspace. -/
def load (disk : FileTree) (workspace : String) : Project :=
  match findConfig? disk workspace with
  | none => ⟨none, {}, filesWithoutConfig disk workspace {}⟩
  | some path =>
    ofConfig disk ((Path.parent? path).getD workspace) path ((Config.load disk path).toOption.getD {})

end Project

end ComponentHost
