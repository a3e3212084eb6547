/-! The commands of a build file. -/

namespace TarRecipe

structure Command where
  name : String
  args : List String
  deriving DecidableEq, Repr

abbrev Recipe := List Command

def Command.render (c : Command) : String := " ".intercalate (c.name :: c.args)

inductive Directive where
  | mkdir
  | copy
  | chmod
  | chown
  deriving DecidableEq, Repr

namespace Directive

def name : Directive → String
  | .mkdir => "MKDIR"
  | .copy => "COPY"
  | .chmod => "CHMOD"
  | .chown => "CHOWN"

def ofName? : String → Option Directive
  | "MKDIR" => some .mkdir
  | "COPY" => some .copy
  | "CHMOD" => some .chmod
  | "CHOWN" => some .chown
  | _ => none

def usage : Directive → String
  | .mkdir => "MKDIR <path>..."
  | .copy => "COPY <src>... <dest>"
  | .chmod => "CHMOD [-R] <mode> <glob>..."
  | .chown => "CHOWN [-R] (<user> | <user>:<group> | :<group>) <glob>..."

theorem ofName?_name (d : Directive) : ofName? d.name = some d := by
  cases d <;> rfl

def recursion : List String → Bool × List String
  | "-R" :: args => (true, args)
  | args => (false, args)

end Directive

end TarRecipe
