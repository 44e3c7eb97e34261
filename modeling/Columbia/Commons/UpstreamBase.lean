import Columbia.Js.Url
import Mathlib.Tactic.IntervalCases

/-! # The guard on the upstream: `validateUpstreamBase`

Run once before the server binds. It compares the text of `hostname` with names and prefixes; what it is for is said here
about addresses. `parse` is the URL parser, `none` where it throws.
-/
namespace Columbia.Commons.UpstreamBase
open Columbia.Js
set_option autoImplicit false

/-- Either the process exits with this code and reason, or the guard returns. -/
inductive Startup
  | exits (code : Nat) (reason : Str)
  | returns
  deriving DecidableEq

def fatal : Startup := .exits 1 (str "upstream_base_invalid")

/-- `/^(1[6-9]|2[0-9]|3[01])\./`. -/
def from16To31 : Str → Bool
  | a :: b :: c :: _ =>
    ((a = 49 ∧ 54 ≤ b ∧ b ≤ 57) ∨ (a = 50 ∧ 48 ≤ b ∧ b ≤ 57) ∨ (a = 51 ∧ 48 ≤ b ∧ b ≤ 49)) ∧ c = 46
  | _ => false

/-- `/^172\.(1[6-9]|2[0-9]|3[01])\./`. -/
def in172 (host : Str) : Bool := (str "172.").isPrefixOf host && from16To31 (host.drop 4)

def isPrivate (protocol host : Str) : Bool :=
  protocol ≠ str "https:" ∨ host = str "localhost" ∨ (str "127.").isPrefixOf host ∨ host = str "::1" ∨
    (str "10.").isPrefixOf host ∨ (str "192.168.").isPrefixOf host ∨ (str "169.254.").isPrefixOf host ∨ in172 host

def validateUpstreamBase (parse : Str → Option Url) (upstreamBase : Str) : Startup :=
  match parse upstreamBase with
  | none => fatal
  | some parsed =>
    let host := toLowerCase parsed.hostname
    if isPrivate parsed.protocol host then fatal else .returns

/-! ## The hosts it names -/

def address (a b c d : Nat) : UInt32 := UInt32.ofNat (a * 2 ^ 24 + b * 2 ^ 16 + c * 2 ^ 8 + d)

/-- The addresses that share the first `bits` bits with `base`. -/
def InBlock (base : UInt32) (bits : Nat) (a : UInt32) : Prop := a.toNat / 2 ^ (32 - bits) = base.toNat / 2 ^ (32 - bits)

def loopback6 : Ipv6 := ⟨[0, 0, 0, 0, 0, 0, 0, 1], rfl⟩

/-- `localhost`, and the addresses in 127.0.0.0/8, 10.0.0.0/8, 172.16.0.0/12, 192.168.0.0/16, 169.254.0.0/16 and `::1`. -/
def Named : Host → Prop
  | .none => False
  | .domain name => name = str "localhost"
  | .ipv4 a => InBlock (address 127 0 0 0) 8 a ∨ InBlock (address 10 0 0 0) 8 a ∨ InBlock (address 172 16 0 0) 12 a ∨
      InBlock (address 192 168 0 0) 16 a ∨ InBlock (address 169 254 0 0) 16 a
  | .ipv6 a => a = loopback6

/-- What the guard is to do with a URL. -/
def Guards (parse : Str → Option Url) (upstreamBase : Str) (url : Url) : Prop :=
  url.protocol ≠ str "https:" ∨ Named url.host → validateUpstreamBase parse upstreamBase = fatal

theorem toLowerCase_append (s t : Str) : toLowerCase (s ++ t) = toLowerCase s ++ toLowerCase t := List.map_append

theorem isPrefixOf_toLowerCase {p s : Str} (hLower : toLowerCase p = p) (h : p <+: s) :
    p.isPrefixOf (toLowerCase s) = true := by
  obtain ⟨t, rfl⟩ := h
  rw [toLowerCase_append, hLower]
  exact List.isPrefixOf_iff_prefix.mpr (List.prefix_append _ _)

/-- An address is written as its first octets, each with a dot, and the rest. -/
theorem ipv4Text_eq (a : UInt32) : ∃ rest, ipv4Text a =
    digitsOf (a.toNat / 2 ^ 24) ++ str "." ++ (digitsOf (a.toNat / 2 ^ 16 % 256) ++ str "." ++ rest) := by
  refine ⟨digitsOf (a.toNat / 2 ^ 8 % 256) ++ str "." ++ digitsOf (a.toNat % 256), ?_⟩
  simp [ipv4Text, octets, List.intercalate, List.intersperse]

theorem ipv4Text_begins {a : UInt32} {b c : Nat} (hFirst : a.toNat / 2 ^ 24 = b) (hSecond : a.toNat / 2 ^ 16 % 256 = c) :
    digitsOf b ++ str "." ++ (digitsOf c ++ str ".") <+: ipv4Text a := by
  obtain ⟨rest, hText⟩ := ipv4Text_eq a
  refine ⟨rest, ?_⟩
  rw [hText, hFirst, hSecond, List.append_assoc _ _ rest]

theorem from16To31_digits {n : Nat} (hLow : 16 ≤ n) (hHigh : n ≤ 31) (rest : Str) :
    from16To31 (toLowerCase (digitsOf n ++ str "." ++ rest)) = true := by
  interval_cases n <;> rfl

theorem in172_ipv4 {a : UInt32} (hBlock : a.toNat / 2 ^ 20 = 2753) : in172 (toLowerCase (ipv4Text a)) = true := by
  obtain ⟨rest, hText⟩ := ipv4Text_eq a
  have hFirst : a.toNat / 2 ^ 24 = 172 := by omega
  have hLow : 16 ≤ a.toNat / 2 ^ 16 % 256 := by omega
  have hHigh : a.toNat / 2 ^ 16 % 256 ≤ 31 := by omega
  have hLower : toLowerCase (digitsOf 172 ++ str ".") = str "172." := by decide
  rw [hText, hFirst, toLowerCase_append, hLower, in172, Bool.and_eq_true]
  constructor
  · exact List.isPrefixOf_iff_prefix.mpr (List.prefix_append _ _)
  · exact from16To31_digits hLow hHigh rest

/-- Every named IPv4 address is refused, whatever its spelling was. -/
theorem isPrivate_ipv4 {protocol : Str} {a : UInt32} (h : Named (.ipv4 a)) :
    isPrivate protocol (toLowerCase (ipv4Text a)) = true := by
  have hFirst : ∀ n, a.toNat / 2 ^ 24 = n → digitsOf n ++ str "." <+: ipv4Text a := by
    rintro n rfl
    exact (List.prefix_append _ _).trans (ipv4Text_begins rfl rfl)
  rw [isPrivate, decide_eq_true_eq]
  rcases h with h | h | h | h | h
  · have hOctet : a.toNat / 2 ^ 24 = 127 := h
    exact .inr (.inr (.inl (isPrefixOf_toLowerCase (by decide) (hFirst 127 hOctet))))
  · have hOctet : a.toNat / 2 ^ 24 = 10 := h
    exact .inr (.inr (.inr (.inr (.inl (isPrefixOf_toLowerCase (by decide) (hFirst 10 hOctet))))))
  · exact .inr (.inr (.inr (.inr (.inr (.inr (.inr (in172_ipv4 h)))))))
  · have hBlock : a.toNat / 2 ^ 16 = 49320 := h
    have hText : str "192.168." <+: ipv4Text a := ipv4Text_begins (b := 192) (c := 168) (by omega) (by omega)
    exact .inr (.inr (.inr (.inr (.inr (.inl (isPrefixOf_toLowerCase (by decide) hText))))))
  · have hBlock : a.toNat / 2 ^ 16 = 43518 := h
    have hText : str "169.254." <+: ipv4Text a := ipv4Text_begins (b := 169) (c := 254) (by omega) (by omega)
    exact .inr (.inr (.inr (.inr (.inr (.inr (.inl (isPrefixOf_toLowerCase (by decide) hText)))))))

/-- No IPv6 address is refused: its text begins with a bracket, and the guard compares with `::1`. -/
theorem isPrivate_ipv6 (a : Ipv6) : isPrivate (str "https:") (toLowerCase (str "[" ++ ipv6Text a ++ str "]")) = false := by
  have hBracket : toLowerCase (str "[" ++ ipv6Text a ++ str "]") = 91 :: toLowerCase (ipv6Text a ++ str "]") := rfl
  rw [hBracket, isPrivate, decide_eq_false_iff_not]
  rintro (h | h | h | h | h | h | h | h)
  · exact h rfl
  · cases h
  · cases h
  · cases h
  · cases h
  · cases h
  · cases h
  · cases h

theorem validateUpstreamBase_eq_fatal {parse : Str → Option Url} {upstreamBase : Str} {url : Url}
    (hParse : parse upstreamBase = some url) :
    validateUpstreamBase parse upstreamBase = fatal ↔ isPrivate url.protocol (toLowerCase url.hostname) = true := by
  simp only [validateUpstreamBase, hParse]
  cases isPrivate url.protocol (toLowerCase url.hostname)
  · exact ⟨nofun, nofun⟩
  · exact ⟨fun _ => rfl, fun _ => rfl⟩

/-- The guard does what it is for, except for `::1`. -/
theorem validateUpstreamBase_guards_iff (parse : Str → Option Url) (upstreamBase : Str) {url : Url}
    (hParse : parse upstreamBase = some url) :
    Guards parse upstreamBase url ↔ ¬(url.protocol = str "https:" ∧ url.host = .ipv6 loopback6) := by
  rw [Guards, validateUpstreamBase_eq_fatal hParse]
  obtain ⟨protocol, host⟩ := url
  constructor
  · rintro hGuards ⟨hProtocol, hHost⟩
    obtain rfl : protocol = str "https:" := hProtocol
    obtain rfl : host = .ipv6 loopback6 := hHost
    have hRefused := hGuards (.inr rfl)
    have hPassed := isPrivate_ipv6 loopback6
    exact absurd (hPassed.symm.trans hRefused) Bool.false_ne_true
  · intro hOther hCase
    by_cases hProtocol : protocol = str "https:"
    · have hNamed : Named host := hCase.resolve_left fun hNot => hNot hProtocol
      cases host with
      | none => exact hNamed.elim
      | domain name =>
        obtain rfl : name = str "localhost" := hNamed
        have hText : toLowerCase (str "localhost") = str "localhost" := by decide
        exact decide_eq_true (.inr (.inl hText))
      | ipv4 a => exact isPrivate_ipv4 hNamed
      | ipv6 a =>
        obtain rfl : a = loopback6 := hNamed
        exact absurd ⟨hProtocol, rfl⟩ hOther
    · exact decide_eq_true (.inl hProtocol)

/-- A parser on two inputs: an IPv4 address in hexadecimal, and the IPv6 loopback address. -/
def testParse (s : Str) : Option Url :=
  if s = str "https://0x7f.1" then some ⟨str "https:", .ipv4 (address 127 0 0 1)⟩
  else if s = str "https://[::1]" then some ⟨str "https:", .ipv6 loopback6⟩
  else none

theorem validateUpstreamBase_guards_iff_hexadecimal :
    validateUpstreamBase testParse (str "https://0x7f.1") = fatal := by
  have hParse : testParse (str "https://0x7f.1") = some ⟨str "https:", .ipv4 (address 127 0 0 1)⟩ := by decide
  apply (validateUpstreamBase_guards_iff testParse (str "https://0x7f.1") hParse).mpr
  · rintro ⟨-, hHost⟩
    cases hHost
  · exact .inr (.inl rfl)

theorem loopback6_passes : ∃ url, testParse (str "https://[::1]") = some url ∧ url.hostname = str "[::1]" ∧
    Named url.host ∧ validateUpstreamBase testParse (str "https://[::1]") = .returns := by
  exact ⟨⟨str "https:", .ipv6 loopback6⟩, by decide, by decide, rfl, by decide⟩

end Columbia.Commons.UpstreamBase
