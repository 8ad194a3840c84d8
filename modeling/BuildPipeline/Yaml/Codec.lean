import BuildPipeline.Yaml.Reader
import BuildPipeline.Yaml.Writing

/-!
# Reading and writing YAML

Templates and pipelines are expanded over whatever reads a text as a value and writes a value as a
text.  The reader and the writer of this library are one choice for that; what is proved about
expanding holds of every other choice as well, or says what it needs of the reader.
-/

namespace BuildPipeline.Yaml

/-- A way to read texts as values and to write values as texts. -/
class Codec where
  read : String → Except ReadError Value
  write : Value → String

instance : Codec where
  read := readValue
  write := Value.text

end BuildPipeline.Yaml
