/- # Open documents

The store keeps one version of each open document.  An older version never takes the place of
a newer one, and of equal versions the first stays.
-/
import ComponentHost.Document.Basic
import ComponentHost.Table

namespace ComponentHost

/-- The open documents. -/
abbrev DocumentStore := Table Uri Document

namespace DocumentStore

/-- No documents. -/
def empty : DocumentStore := []

/-- Takes in a version of a document; gives the version that is kept. -/
def opened (s : DocumentStore) (d : Document) : Document × DocumentStore :=
  match s.get? d.uri with
  | some kept => if kept.version < d.version then (d, s.set d.uri d) else (kept, s)
  | none => (d, s.set d.uri d)

/-- Forgets a document; gives the version that was kept. -/
def closed (s : DocumentStore) (uri : Uri) : Option Document × DocumentStore :=
  (s.get? uri, s.erase uri)

/-- The open document of a file. -/
def byFileName? (s : DocumentStore) (name : String) : Option Document :=
  (s.find? fun e => e.2.fileName == name).map Prod.snd

end DocumentStore

end ComponentHost
