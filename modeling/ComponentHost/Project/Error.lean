/- # Failures while reading a project

None of them is shown to the editor: every operation falls back to a neutral value.
-/
import ComponentHost.FileTree

namespace ComponentHost

/-- What can go wrong while the files of a project are read. -/
inductive ProjectError where
  /-- A file cannot be read. -/
  | unreadable (path : String) (cause : FileError)
  /-- A manifest or a configuration is not in its format. -/
  | badData (path : String)
  /-- A settings file is not in its format. -/
  | badSettings (path : String)
  /-- No manifest at or above a directory. -/
  | manifestNotFound (dir : String)
  /-- A manifest does not name a dependency. -/
  | missingDependency (dependency path : String)
  /-- A version without a pair of numbers. -/
  | badVersion (text : String)
deriving DecidableEq, Repr

/-- The failure in words. -/
def ProjectError.message : ProjectError → String
  | .unreadable path cause => "failed to read " ++ path ++ ": " ++ cause.message
  | .badData path => "invalid JSON in " ++ path
  | .badSettings path => "invalid settings in " ++ path
  | .manifestNotFound dir => "no package.json found above " ++ dir
  | .missingDependency dependency path => "`" ++ dependency ++ "` is not declared in " ++ path
  | .badVersion text => "unrecognized version string `" ++ text ++ "`"

/-- The text of a file. -/
def FileTree.text (disk : FileTree) (path : String) : Except ProjectError String :=
  (disk.readText path).mapError (.unreadable path)

end ComponentHost
