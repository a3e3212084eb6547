import TarRecipe.Error
import TarRecipe.Mode

/-! What is checked of a recipe before anything runs. -/

namespace TarRecipe

def Directive.needsGlob (d : Directive) (args : List String) : Except Error Unit :=
  match (recursion args).2 with
  | first :: _ :: _ =>
    -- the mode is read again when the directive runs; here it only has to be one
    if d = .chmod ∧ (ModeChange.parse? first).isNone then .error (.usage d) else .ok ()
  | _ => .error (.usage d)

def Command.validate (c : Command) : Except Error (Directive × Command) :=
  match Directive.ofName? c.name with
  | none => .error (.invalidSpec (.unknownDirective c.name))
  | some d =>
    match d, c.args with
    | _, [] => .error (.invalidSpec (.noArguments c.name))
    | .copy, [path] => .ok (d, { c with args := [path, path] })
    | .copy, _ => .ok (d, c)
    | .mkdir, _ => .ok (d, c)
    | .chmod, args => (d.needsGlob args).map fun _ => (d, c)
    | .chown, args => (d.needsGlob args).map fun _ => (d, c)

namespace Recipe

/-- The outcome of a check: the directives or the first error, and the commands, completed up to
the one at fault. -/
structure Checked where
  result : Except Error (List Directive)
  commands : Recipe

def check : Recipe → Checked
  | [] => ⟨.ok [], []⟩
  | c :: r =>
    match c.validate with
    | .error e => ⟨.error e, c :: r⟩
    | .ok (d, c) =>
      let rest := check r
      ⟨rest.result.map (d :: ·), c :: rest.commands⟩

def Checked.steps (c : Checked) : Except Error (List (Directive × List String)) :=
  c.result.map (·.zip (c.commands.map (·.args)))

end Recipe

end TarRecipe
