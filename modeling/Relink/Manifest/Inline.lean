import Relink.Json.Reader
import Relink.Manifest.Basic

/-!
# Manifests written out in JSON

A manifest can be part of a document. Its values mean what they mean in a file –
a text replaces, `null` and `false` remove – but the older layout is not accepted,
and each value is looked at as soon as it has been read. A value that is no
replacement is therefore a fault even if its path is given another one later on,
and even if the text after it is no JSON.
-/

namespace Relink

namespace Manifest

/-- Puts one member into a manifest. -/
def putMember (m : Manifest) (path : String) : Json → Json.Reading Manifest
  | .string s => .ok (m.put path (some s))
  | .null => .ok (m.put path none)
  | .boolean false => .ok (m.put path none)
  | .boolean true => .error (.mismatch (.replacementIsTrue path))
  | _ => .error (.mismatch .noReplacement)

/-- Reads one member; `depth` is how deep its value may be nested. -/
def readInlineMember (depth : Nat) (m : Manifest) (path : String) (bs : Bytes) :
    Json.Reading (Manifest × Bytes) := do
  let bs ← Json.readColon bs
  let (v, bs) ← Json.readValue depth bs
  let m ← putMember m path v
  .ok (m, bs)

/-- Reads a manifest; `depth` is how many objects it may consist of, itself
included, inside each other. -/
def readInline (depth : Nat) (bs : Bytes) : Json.Reading (Manifest × Bytes) :=
  match Json.skipBlanks bs with
  | [] => .error .truncated
  | b :: rest =>
    if b = Json.byte '\x7b' then
      Json.readObject (readInlineMember (depth - 1)) Table.empty rest
    else .error (Json.wrongKind .inlineManifest (b :: rest))

/-- The manifest that a document consists of. -/
def parseInline (content : Bytes) : Json.Reading Manifest :=
  Json.readAll (readInline Json.depthLimit) content

end Manifest

end Relink
