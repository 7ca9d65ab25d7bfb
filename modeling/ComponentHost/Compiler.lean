/- # The compiler

What the features for scripts ask of a compiler, and what it answers.  Offsets count bytes of the
script that the host serves, which for a component are also offsets into the document.
-/
namespace ComponentHost

/-- A stretch of text that the compiler reports. -/
structure Span where
  start : Nat
  length : Nat
deriving DecidableEq, Repr

/-- The offset after the stretch. -/
def Span.stop (s : Span) : Nat := s.start + s.length

/-- Something wrong with a script. -/
structure Problem where
  /-- None if the whole file is meant. -/
  span : Option Span
  message : String
  code : Nat
deriving DecidableEq, Repr

/-- What sort of thing a name is. -/
inductive ElementKind where
  | keyword | script | module | externalModuleName | class_ | localClass | interface | type | enum
  | enumMember | variable_ | localVariable | let_ | const | function | localFunction | method | getter
  | setter | property | constructor | callSignature | indexSignature | constructSignature | parameter
  | typeParameter | primitive | label | alias | directory | string | unknown
deriving DecidableEq, Repr

/-- A proposal at a place. -/
structure Proposal where
  name : String
  kind : ElementKind
  sortText : String
  /-- The text that the proposal replaces, if it is not just the word at the place. -/
  replacement : Option Span := none
  /-- The module from which the name would be imported. -/
  source : Option String := none
deriving DecidableEq, Repr

/-- What is known about the name at a place. -/
structure NameInfo where
  span : Span
  /-- Its signature or type, as code. -/
  display : String
  documentation : String
deriving DecidableEq, Repr

/-- A place in a file of the program. -/
structure FileSpan where
  file : String
  span : Span
deriving DecidableEq, Repr

/-- A compiler. -/
structure Compiler where
  /-- The files of its program, given the files of the project. -/
  programFiles : List String → List String
  syntactic : String → List Problem
  semantic : String → List Problem
  /-- Proposals at an offset of a file; names from modules that are not imported yet are asked for
  or not. -/
  completions : String → Nat → Bool → List Proposal
  nameInfo? : String → Nat → Option NameInfo
  definitions : String → Nat → List FileSpan
  references : String → Nat → List FileSpan

/-- A request to the compiler. -/
inductive CompilerCall where
  | syntactic (file : String)
  | semantic (file : String)
  | completions (file : String) (offset : Nat) (withModules : Bool)
  | nameInfo (file : String) (offset : Nat)
  | definitions (file : String) (offset : Nat)
  | references (file : String) (offset : Nat)
  /-- Drop what is known, because a component changed its language. -/
  | restart
deriving DecidableEq, Repr

/-- The request in words. -/
def CompilerCall.render : CompilerCall → String
  | .syntactic file => s!"syntactic {file}"
  | .semantic file => s!"semantic {file}"
  | .completions file offset withModules => s!"completions {file} {offset} {withModules}"
  | .nameInfo file offset => s!"info {file} {offset}"
  | .definitions file offset => s!"definition {file} {offset}"
  | .references file offset => s!"references {file} {offset}"
  | .restart => "restart"

end ComponentHost
