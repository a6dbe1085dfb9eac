import MarkupTemplates.Text.Basic

namespace MarkupTemplates

/-- Bytes as hexadecimal digits, two for each. -/
def Text.ofBytes (bytes : List UInt8) : Text :=
  bytes.flatMap fun b => [Nat.digitChar (b.toNat / 16), Nat.digitChar (b.toNat % 16)]

end MarkupTemplates
