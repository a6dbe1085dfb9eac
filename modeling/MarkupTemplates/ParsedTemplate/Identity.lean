import MarkupTemplates.Digest
import MarkupTemplates.ParsedTemplate.Basic
import MarkupTemplates.Text.Hex

namespace MarkupTemplates

namespace ParsedTemplate

variable {Compiled : Type}

/-- What tells a template from others: its name and its code, with a null byte in between. -/
def identity (template : ParsedTemplate Compiled) : List UInt8 :=
  template.resource.name.flatMap String.utf8EncodeChar ++
    0 :: template.code.flatMap String.utf8EncodeChar

def digest (template : ParsedTemplate Compiled) : Text :=
  Text.ofBytes (Digest.blake2s template.identity)

/-- A name for what is compiled from the template, the same whenever name and code are. -/
def className (template : ParsedTemplate Compiled) : Text :=
  ("Template_" : Text) ++ template.digest.take 16

end ParsedTemplate

end MarkupTemplates
