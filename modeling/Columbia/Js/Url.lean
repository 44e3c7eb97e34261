import Columbia.Js.Value
import Mathlib.Algebra.Group.Nat.Defs

/-! # Hosts of parsed URLs

The parser turns every spelling of a host into one of these; `hostname` writes it back in one way. An IPv4 address is
written in dotted decimal, an IPv6 address in square brackets, with its first longest run of zeros compressed.
-/
namespace Columbia.Js
set_option autoImplicit false

structure Ipv6 where
  pieces : List UInt16
  length : pieces.length = 8
  deriving DecidableEq

inductive Host
  | none
  | domain (name : Str)
  | ipv4 (address : UInt32)
  | ipv6 (address : Ipv6)
  deriving DecidableEq

/-- The part of a `URL` object that is read here; `protocol` ends in a colon. An opaque host is a name. -/
structure Url where
  protocol : Str
  host : Host
  deriving DecidableEq

/-! ## Serialisation -/

def octets (address : UInt32) : List Nat :=
  [address.toNat / 2 ^ 24, address.toNat / 2 ^ 16 % 256, address.toNat / 2 ^ 8 % 256, address.toNat % 256]

def ipv4Text (address : UInt32) : Str := List.intercalate (str ".") ((octets address).map digitsOf)

def hexDigits (piece : UInt16) : Str := (Nat.toDigits 16 piece.toNat).map fun c => UInt16.ofNat c.toNat

def zerosAt (pieces : List UInt16) (n : Nat) : Nat := ((pieces.drop n).takeWhile (· = 0)).length

/-- Where the first of the longest runs of more than one zero begins. -/
def compressAt (pieces : List UInt16) : Option Nat :=
  let longest := ((List.range pieces.length).map (zerosAt pieces)).foldl max 0
  if 1 < longest then (List.range pieces.length).find? fun n => zerosAt pieces n = longest else none

/-- The pieces from the `n`-th on; `ignore0` while the compressed run lasts. -/
def piecesText (compress : Option Nat) (n : Nat) (ignore0 : Bool) : List UInt16 → Str
  | [] => []
  | piece :: rest =>
    if ignore0 ∧ piece = 0 then piecesText compress (n + 1) true rest
    else if compress = some n then
      (if n = 0 then str "::" else str ":") ++ piecesText compress (n + 1) true rest
    else hexDigits piece ++ (if rest = [] then [] else str ":") ++ piecesText compress (n + 1) false rest

def ipv6Text (address : Ipv6) : Str := piecesText (compressAt address.pieces) 0 false address.pieces

def Url.hostname (url : Url) : Str :=
  match url.host with
  | .none => []
  | .domain name => name
  | .ipv4 address => ipv4Text address
  | .ipv6 address => str "[" ++ ipv6Text address ++ str "]"

/-- `2001:db8::1`, and an address with two runs of the same length. -/
example : ipv6Text ⟨[0x2001, 0xdb8, 0, 0, 0, 0, 0, 1], rfl⟩ = str "2001:db8::1" ∧
    ipv6Text ⟨[1, 0, 0, 2, 3, 0, 0, 4], rfl⟩ = str "1::2:3:0:0:4" := by decide

end Columbia.Js
