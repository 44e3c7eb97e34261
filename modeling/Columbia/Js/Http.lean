import Columbia.Js.Utf8

/-! # Request headers

Node joins a repeated header with commas. The Front Door lock is the same in the issuer and in the relay.
-/
namespace Columbia.Js
set_option autoImplicit false

/-- `String(header || '').split(';')[0].trim().toLowerCase()`. -/
def mediaType (contentType : Option Str) : Str := toLowerCase (trim ((contentType.getD []).takeWhile (· ≠ 59)))

variable (sha256 : Bytes → Digest)

def timingSafeEqualStr (presented expected : Str) : Bool :=
  presented ≠ [] ∧ sha256 (utf8Encode presented) = sha256 (utf8Encode expected)

def frontDoorAllowed (requireFdid : Str) (raw : Option Str) : Bool :=
  requireFdid = [] ∨ raw.any fun raw =>
    raw ≠ [] ∧ (raw.splitOn 44).any fun tok => timingSafeEqualStr sha256 (trim tok) requireFdid

end Columbia.Js
