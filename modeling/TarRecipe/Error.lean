import TarRecipe.Disk.Fault
import TarRecipe.Glob
import TarRecipe.Ignore.Rules
import TarRecipe.Json.Fault
import TarRecipe.Path
import TarRecipe.Recipe.Command
import TarRecipe.Text.Quoted
import TarRecipe.Tree.Kind

/-! Everything that can go wrong, and the words for it. -/

namespace TarRecipe

inductive SpecFault where
  | notText (fault : Utf8.Fault)
  | document (text : String) (fault : Json.Fault)
  | line (text : String)
  | arguments (text : String) (fault : Json.Fault)
  | unknownDirective (name : String)
  | noArguments (name : String)
  | mode (text : String)
  deriving DecidableEq, Repr

def SpecFault.message : SpecFault → String
  | .notText fault => "build file is not utf-8 (" ++ fault.message ++ ")"
  | .document text fault => Text.quoted text ++ " (" ++ fault.message ++ ")"
  | .line text => "invalid command: " ++ Text.quoted text
  | .arguments text fault => "invalid command: " ++ Text.quoted text ++ " (" ++ fault.message ++ ")"
  | .unknownDirective name => "invalid command " ++ Text.quoted name
  | .noArguments name => "invalid command: " ++ Text.quoted name ++ " requires arguments"
  | .mode text => "invalid mode " ++ Text.quoted text

inductive PatternError where
  | glob (pattern : String) (fault : Glob.Fault)
  | ignoreLine (fault : Ignore.LineFault)
  deriving DecidableEq, Repr

def PatternError.message : PatternError → String
  | .glob pattern fault => Text.quoted pattern ++ ": " ++ fault.message
  | .ignoreLine fault => Text.quoted fault.line ++ ": " ++ fault.message

/-- A field of an archive header with what a message shows of it: the group's comes after the user,
and of a path the part is shown that was already stored. -/
inductive HeaderField where
  | user
  | group (user : String)
  | path (stored : String)
  deriving DecidableEq, Repr

structure HeaderFault where
  field : HeaderField
  hasZero : Bool
  deriving DecidableEq, Repr

def HeaderFault.message (f : HeaderFault) : String :=
  (if f.hasZero then "provided value contains a nul byte" else "provided value is too long") ++
    match f.field with
    | .user => " when setting username for :"
    | .group user => " when setting groupname for :" ++ user
    | .path stored => " when setting path for " ++ stored

inductive Error where
  | notFound (path : Path)
  | alreadyExists (path : Path)
  | typeMismatch (path : Path) (expected found : Kind)
  | scanOfFile (place : Bytes)
  | invalidSpec (fault : SpecFault)
  | usage (directive : Directive)
  | pattern (error : PatternError)
  | io (place : Bytes) (fault : Disk.Fault)
  | archive (record : String) (fault : HeaderFault)
  | config
  | invalidCompression (text : String)
  | invalidDigest (text : String)
  deriving DecidableEq, Repr

def mismatchMessage (place : String) (expected found : Kind) : String :=
  "type mismatch at " ++ place ++ ": expected " ++ expected.name ++ ", found " ++ found.name

def Error.message : Error → String
  | .notFound path => "no such entry: " ++ path.shown
  | .alreadyExists path => "entry already exists: " ++ path.shown
  | .typeMismatch path expected found => mismatchMessage path.shown expected found
  | .scanOfFile place => mismatchMessage (Utf8.lossy place) .directory .file
  | .invalidSpec fault => "invalid spec: " ++ fault.message
  | .usage directive => "usage: " ++ directive.usage
  | .pattern error => "invalid pattern " ++ error.message
  | .io place fault => "io error at " ++ Utf8.lossy place ++ ": " ++ fault.message
  | .archive record fault => "cannot encode archive record " ++ record ++ ": " ++ fault.message
  | .config => "config error"
  | .invalidCompression text => "invalid compression: " ++ text
  | .invalidDigest text => "invalid digest hex: " ++ text

end TarRecipe
