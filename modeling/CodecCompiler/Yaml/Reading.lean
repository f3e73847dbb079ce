/-
Reading YAML texts: from the characters of a text to its data, by way of its tokens and the graph of its nodes.
-/
import CodecCompiler.Yaml.Graph.Assembly
import CodecCompiler.Yaml.Graph.Evaluation
import CodecCompiler.Yaml.Token.Scan

namespace CodecCompiler.Yaml

/-- the data of a text, or why it has none -/
def read (text : String) : Except Failure Data := do
  let cs := text.toList
  if cs.all isReadable then (← Graph.ofTokens (Token.scan cs)).evaluate else throw .malformed

end CodecCompiler.Yaml
