/-
The compiler from codecs to schema fragments.

A compilation carries `Progress` along: the definitions compiled so far, in the order of their discovery, and the names
of the bodies it asked for. A recursive codec reserves its id with an empty fragment before its body is compiled, so a
cycle back to it ends in a reference. Progress survives a failure: what was compiled before it stays.

- `fragmentOf` compiles a codec's tree; it enters bodies and the codecs of custom handlers through its argument `enter`.
- `fragmentAt` closes that loop; its first argument bounds how deep codecs are entered.
- `Context.depth` is a bound that only endless delegation between handlers exceeds: bodies are entered once an id, and
  the same handler's codec twice without a new id in between means that it goes on for ever. How deep the programs of
  custom handlers enter codecs is for their scripts to say.
- `compile` and `generate` run a compilation; `generate` puts the definitions in front.
-/
import CodecCompiler.Compiler.Options
import CodecCompiler.Fragment

namespace CodecCompiler

/-- what a compilation reads -/
structure Context where
  registry : Registry
  target : Target
  allowAdditional : Bool
  bodies : Bodies
  deriving Repr, Inhabited

/-- what a compilation leaves behind -/
structure Progress where
  /-- the definitions by id, in the order of discovery -/
  definitions : Fields := []
  /-- the bodies asked for, in order -/
  resolved : List Text := []
  deriving DecidableEq, Repr, Inhabited

/-- a compilation step; progress survives its failure -/
abbrev Compile := ExceptT CompileError (StateM Progress)

namespace Compile

/-- runs a step from given progress -/
def runFrom {α : Type} (step : Compile α) (progress : Progress) : Except CompileError α × Progress :=
  (ExceptT.run step).run progress

/-- a merge as a step -/
def ofMerge {α : Type} (result : Except MergeError α) : Compile α :=
  match result with
  | .ok a => pure a
  | .error e => throw (.merge e)

end Compile

/-! ## Fragments of single codecs -/

/-- the fragment of a codec that is only a tag -/
def bareFragment (tag : Tag) : Compile Fields :=
  match tag.kind? with
  | some (.primitive .any) => pure []
  | some (.primitive p) => pure [("type", .str p.name)]
  | _ => throw (.bare tag.name)

/-- a fragment with a codec's description in front; a field of that name in the fragment prevails -/
def described (description : Option Text) (fragment : Fields) : Fields :=
  match description with
  | none => fragment
  | some d => if d.isEmpty then fragment else Entries.merge [("description", .str d)] fragment

/-- a reference to a definition -/
def reference (id : Text) : Fields := [("$ref", .str ("#/definitions/" ++ id))]

/-- the fragment of an array with one schema for all items -/
def arrayFragment (items : Fields) : Fields := [("type", .str "array"), ("items", .obj items)]

/-- the fragment of a tuple -/
def tupleFragment (items : List Fields) : Fields :=
  [("type", .str "array"), ("items", .arr (items.map .obj)), ("minItems", .int items.length),
    ("maxItems", .int items.length)]

/-- the fragment of a record -/
def recordFragment (values : Fields) : Fields :=
  [("type", .str "object"), ("additionalProperties", .obj values), ("properties", .obj []), ("required", .arr [])]

/-- the fragment of an object, where `required` names fields of its shape -/
def objectFragment (properties : Entries Fields) (allowAdditional : Bool) (required : List Text) : Fields :=
  Fragment.object (Entries.mapValues .obj properties) allowAdditional (required.map .str)

/-- the names of a shape's required fields -/
def requiredNames (shape : Entries Codec) : List Text :=
  Entries.names (shape.filter fun e => e.2.required)

/-! ## The walk -/

/-- runs a program for a codec, where `builtin` is what the codec's kind prescribes -/
def Program.run (enter : Codec → Compile Fields) (builtin : Compile Fields) : Program → Compile Fields
  | .give fragment => return fragment
  | .fail error => throw error
  | .compile codec next => do run enter builtin (next (← enter codec))
  | .prescribed next => do run enter builtin (next (← builtin))

/-- what a handler makes of a codec, where `builtin` is what the codec's kind prescribes -/
def act (ctx : Context) (enter : Codec → Compile Fields) (codec : Codec) (builtin : Compile Fields) :
    Action → Compile Fields
  | .builtin => builtin
  | .constant fragment => do return fragment
  | .reportCache => do return [("x-cache", .obj (← get).definitions)]
  | .reportContext =>
    return [("x-target", .str ctx.target.name), ("x-allow", .bool ctx.allowAdditional),
      ("x-tags", Json.texts ctx.registry.tags), ("x-required", .bool codec.required)]
  | .delegate key other => do return [(key, .obj (← enter other))]
  | .replace other => enter other
  | .extend extra => do return Entries.merge (← builtin) extra
  | .custom script => (script.program codec).run enter builtin

/-- compiles a codec with the first handler of its tag, where `builtin` is what its kind prescribes -/
def handled (ctx : Context) (enter : Codec → Compile Fields) (codec : Codec) (builtin : Compile Fields) :
    Compile Fields :=
  match ctx.registry.find? codec.tag with
  | none => throw (.unsupported codec.tag.name)
  | some handler => do return described codec.description (← act ctx enter codec builtin handler.action)

/-- compiles a recursive codec: a reference, and its definition when the id is new -/
def definition (ctx : Context) (enter : Codec → Compile Fields) (id body : Text) : Compile Fields := do
  if Entries.has (← get).definitions id then
    return reference id
  modify fun p => { definitions := Entries.set p.definitions id (.obj []), resolved := p.resolved ++ [body] }
  match Entries.get? ctx.bodies body with
  | none => throw (.noBody body)
  | some codec =>
    let fragment ← enter codec
    modify fun p => { p with definitions := Entries.set p.definitions id (.obj fragment) }
    return reference id

mutual

/-- compiles a codec; `enter` compiles the bodies and codecs that are no parts of it -/
def fragmentOf (ctx : Context) (enter : Codec → Compile Fields) : Codec → Compile Fields
  | .plain m tag => handled ctx enter (.plain m tag) (bareFragment tag)
  | .literal m value => handled ctx enter (.literal m value) (pure [("type", .str "string"), ("const", value)])
  | .enum m values => handled ctx enter (.enum m values) (pure [("type", .str "string"), ("enum", .arr values)])
  | .object m shape =>
    handled ctx enter (.object m shape) do
      let properties ← fragmentsOfShape ctx enter shape
      return objectFragment properties ctx.allowAdditional (requiredNames shape)
  | .record m values =>
    handled ctx enter (.record m values) do
      return recordFragment (← fragmentOf ctx enter values)
  | .array m items =>
    handled ctx enter (.array m items) do
      return arrayFragment (← fragmentOf ctx enter items)
  | .tuple m items =>
    handled ctx enter (.tuple m items) do
      return tupleFragment (← fragmentsOf ctx enter items)
  | .intersection m members =>
    handled ctx enter (.intersection m members) do
      Compile.ofMerge (Fragment.intersect (← fragmentsOf ctx enter members) ctx.allowAdditional)
  | .union m members =>
    handled ctx enter (.union m members) do
      return [("anyOf", .arr ((← fragmentsOf ctx enter members).map .obj))]
  | .recursive m id body => handled ctx enter (.recursive m id body) (definition ctx enter id body)

/-- compiles the codecs of a list in order -/
def fragmentsOf (ctx : Context) (enter : Codec → Compile Fields) : List Codec → Compile (List Fields)
  | [] => do return []
  | c :: cs => do
    let fragment ← fragmentOf ctx enter c
    return fragment :: (← fragmentsOf ctx enter cs)

/-- compiles the fields of a shape in order -/
def fragmentsOfShape (ctx : Context) (enter : Codec → Compile Fields) :
    List (Text × Codec) → Compile (Entries Fields)
  | [] => do return []
  | (name, c) :: cs => do
    let fragment ← fragmentOf ctx enter c
    return (name, fragment) :: (← fragmentsOfShape ctx enter cs)

end

/-- compiles a codec whose bodies and handlers' codecs are entered at most `depth` deep -/
def fragmentAt (ctx : Context) : (depth : Nat) → Codec → Compile Fields
  | 0, _ => throw .endless
  | depth + 1, codec => fragmentOf ctx (fragmentAt ctx depth) codec

/-- the codecs that handlers compile in place of others -/
def Context.payloads (ctx : Context) : List Codec := ctx.registry.filterMap fun h => h.action.payload?

/-- how deep codecs can be entered: between two new ids, once through each handler's codec; and as deep again as the
programs of handlers say -/
def Context.depth (ctx : Context) (codec : Codec) : Nat :=
  let ids := codec.ids ++ Codec.idsEntries ctx.bodies ++ Codec.idsList ctx.payloads
  let reach := ctx.registry.foldl (fun depth h => depth + h.action.reach) 0
  (ids.length + 1) * (ctx.payloads.length + 1) + 1 + reach

/-- compiles a codec -/
def compile (ctx : Context) (codec : Codec) : Compile Fields := fragmentAt ctx (ctx.depth codec) codec

/-- the context of a compilation with options: custom handlers stand before the built-in ones -/
def Options.context (options : Options) (bodies : Bodies) : Context :=
  ⟨options.handlers ++ Registry.builtin, options.target, options.allowAdditional, bodies⟩

/-- the definitions in front of the top fragment; a field of that name in the fragment prevails -/
def withDefinitions (definitions fragment : Fields) : Fields :=
  Entries.merge [("definitions", .obj definitions)] fragment

/-- compiles a codec and its bodies into a schema document, and tells the progress made -/
def generate (system : CodecSystem) (options : Options) : Except CompileError Fields × Progress :=
  let (result, progress) := (compile (options.context system.bodies) system.root).runFrom {}
  (result.map (withDefinitions progress.definitions), progress)

end CodecCompiler
