import ApiDrift.Introspection.Parse
/-! Contents of files. -/
namespace ApiDrift

/-- Text where the bytes are UTF-8, and the bytes otherwise. -/
inductive Content where
  | text (s : String)
  | binary (bytes : List UInt8)
deriving DecidableEq, Repr

namespace Content

def ofBytes (bytes : List UInt8) : Content :=
  match Text.Utf8.decode bytes with
  | .ok l => .text (String.ofList l)
  | .error _ => .binary bytes

def parse (options : Introspection.Options) :
    Content → Except Introspection.ParseError Introspection.Parsed
  | .text s => Introspection.parseText options s
  | .binary bytes => Introspection.parseBytes options bytes

end Content

end ApiDrift
