/-
Arguments of a command: what stands on the command line after its name. Options may stand before, between and behind
the other arguments; after a lone double dash all arguments count as others.

- `Usage`: the options that a command has, and how many other arguments.
- `Arguments.read`: the arguments in their order, unless one of them is not as the usage says.
- An option that takes a value takes the next argument, whatever it looks like, or what follows an equals sign. A switch
  takes none; it is turned off by `--no-` in front of its name. Of repeated options the last one counts.
-/

namespace CodecCompiler

structure Usage where
  /-- the names of the options that take a value -/
  valued : List String := []
  /-- the names of the switches -/
  switches : List String := []
  /-- the number of other arguments -/
  others : Nat := 0
  deriving Repr

/-- arguments as they were read, in their order -/
structure Arguments where
  values : List (String × String) := []
  switches : List (String × Bool) := []
  others : List String := []
  /-- help was asked for -/
  help : Bool := false
  deriving DecidableEq, Repr

namespace Arguments

/-- is an argument an option, by its form -/
def isOption (arg : String) : Bool := arg.startsWith "-" && arg ≠ "-"

/-- the name of an option, and the value that follows an equals sign -/
def split (arg : String) : String × Option String :=
  let cs := arg.toList
  let name := String.ofList (cs.takeWhile (· ≠ '='))
  match cs.dropWhile (· ≠ '=') with
  | _ :: value => (name, some (String.ofList value))
  | [] => (name, none)

/-- what a name stands for -/
inductive Meaning where
  | valued (name : String)
  | switch (name : String) (on : Bool)
  | help
  deriving DecidableEq, Repr

/-- what an option's name stands for under a usage -/
def meaning? (u : Usage) (arg : String) : Option Meaning :=
  if arg = "--help" then some .help
  else
    match u.valued.find? fun n => "--" ++ n = arg with
    | some n => some (.valued n)
    | none =>
      match u.switches.find? fun n => "--" ++ n = arg with
      | some n => some (.switch n true)
      | none => (u.switches.find? fun n => "--no-" ++ n = arg).map (.switch · false)

/-- the arguments in their order, however many others there are -/
def scan (u : Usage) : List String → Option Arguments
  | [] => some {}
  | arg :: args =>
    if arg = "--" then some { others := args }
    else if isOption arg then
      match meaning? u (split arg).1, (split arg).2, args with
      | some (.valued name), some value, args =>
        (scan u args).map fun a => { a with values := (name, value) :: a.values }
      | some (.valued name), none, value :: args =>
        (scan u args).map fun a => { a with values := (name, value) :: a.values }
      | some (.switch name on), none, args =>
        (scan u args).map fun a => { a with switches := (name, on) :: a.switches }
      | some .help, none, args => (scan u args).map fun a => { a with help := true }
      | _, _, _ => none
    else (scan u args).map fun a => { a with others := arg :: a.others }

/-- the arguments of a command; one that asks for help needs no others -/
def read (u : Usage) (args : List String) : Option Arguments :=
  (scan u args).filter fun a => a.help || a.others.length = u.others

/-- the last value of an option -/
def value? (a : Arguments) (name : String) : Option String := a.values.reverse.lookup name

/-- the last setting of a switch -/
def isOn (a : Arguments) (name : String) (absent : Bool) : Bool := (a.switches.reverse.lookup name).getD absent

end Arguments

end CodecCompiler
