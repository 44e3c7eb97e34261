import Columbia.Gateway.Handler
import Columbia.Gateway.Varint
import Columbia.Lib.OrderedMap

/-! # Binary HTTP messages

A message is a framing indicator, its control data, two field sections and the content between them, each behind its
length. What follows the last of them is padding that no reader looks at. A writer runs through a Go map, whose order
is any.
-/
namespace Columbia.Gateway.Bhttp
open Columbia.Js Columbia.Lib Columbia.Gateway.Varint Columbia.Gateway.Handler
set_option autoImplicit false

abbrev HttpHeader := OrderedMap Bytes (List Bytes)

/-- `others` are the fields of a `url.URL` that only its `String` reads. -/
structure URL extends Handler.Url where
  others : List Bytes
  deriving DecidableEq

def asciiLower (c : UInt8) : UInt8 := if 65 ≤ c ∧ c ≤ 90 then c + 32 else c

/-- `strings.ToLower`, `url.Parse`, `URL.String` and the `range` over a map of the standard library. -/
structure Go where
  toLower : Bytes → Bytes
  toLower_ascii : ∀ s, (∀ c ∈ s, c < 128) → toLower s = s.map asciiLower
  parse : Bytes → Except Bytes URL
  string : URL → Bytes
  range : HttpHeader → List (Bytes × List Bytes)
  range_perm : ∀ h, (range h).Perm h.entries

/-! ## `http.Header` -/

def tokenSigns : List UInt8 := [33, 35, 36, 37, 38, 39, 42, 43, 45, 46, 94, 95, 96, 124, 126]

def validHeaderFieldByte (c : UInt8) : Bool :=
  (48 ≤ c && c ≤ 57) || (65 ≤ c && c ≤ 90) || (97 ≤ c && c ≤ 122) || c ∈ tokenSigns

def canonicalByte (upper : Bool) (c : UInt8) : UInt8 :=
  if upper = true ∧ 97 ≤ c ∧ c ≤ 122 then c - 32
  else if upper = false ∧ 65 ≤ c ∧ c ≤ 90 then c + 32
  else c

def canonicalBytes : Bool → Bytes → Bytes
  | _, [] => []
  | upper, c :: rest => canonicalByte upper c :: canonicalBytes (canonicalByte upper c == 45) rest

def CanonicalMIMEHeaderKey (s : Bytes) : Bytes := if s.all validHeaderFieldByte then canonicalBytes true s else s

def HttpHeader.Set (h : HttpHeader) (key value : Bytes) : HttpHeader := h.set (CanonicalMIMEHeaderKey key) [value]

def HttpHeader.Get (h : HttpHeader) (key : Bytes) : Bytes :=
  ((h.get? (CanonicalMIMEHeaderKey key)).bind List.head?).getD []

theorem HttpHeader.Get_Set_self (h : HttpHeader) (key value : Bytes) : (h.Set key value).Get key = value := by
  rw [HttpHeader.Get, HttpHeader.Set, OrderedMap.get?_set_self]
  rfl

theorem HttpHeader.Get_Set_of_ne (h : HttpHeader) {key other : Bytes} (value : Bytes)
    (hOther : CanonicalMIMEHeaderKey other ≠ CanonicalMIMEHeaderKey key) : (h.Set key value).Get other = h.Get other := by
  rw [HttpHeader.Get, HttpHeader.Set, OrderedMap.get?_set_of_ne _ _ hOther, HttpHeader.Get]

/-! ## Messages -/

/-- A nil map is `none`. -/
structure HttpRequest where
  Method : Bytes
  URL : URL
  Host : Bytes
  Header : HttpHeader
  Trailer : Option HttpHeader
  Body : Bytes

/-- The body of an answer from the network can break off. -/
structure HttpResponse where
  StatusCode : Nat
  Header : HttpHeader
  Trailer : HttpHeader
  Body : Except Bytes Bytes

/-- `http.NewRequest`, for a method it knows. -/
def NewRequest (go : Go) (method url content : Bytes) : Except Failure HttpRequest := do
  let u ← (go.parse url).mapError Failure.other
  let req := newRequest method u.toUrl
  return ⟨method, { u with toUrl := req.URL }, req.Host, .empty, none, content⟩

structure Field where
  name : Bytes
  value : Bytes
  deriving DecidableEq

structure RequestControlData where
  method : Bytes
  scheme : Bytes
  authority : Bytes
  path : Bytes

def prohibitedFields : List Bytes := [":method", ":scheme", ":authority", ":path", ":status"].map text

def isProhibitedField (fieldName : Bytes) : Bool := fieldName ∈ prohibitedFields

def methods : List Bytes :=
  ["GET", "POST", "DELETE", "PATCH", "PUT", "OPTIONS", "TRACE", "HEAD", "CONNECT"].map text

/-! ## Writing -/

def encodeVarintSlice (data : Bytes) : Except Failure Bytes := do
  let front ← write data.length
  return front ++ data

def Field.Marshal (f : Field) : Except Failure Bytes := do
  let name ← encodeVarintSlice f.name
  let value ← encodeVarintSlice f.value
  return name ++ value

def createHeaderFields (go : Go) (h : HttpHeader) : List Field :=
  (go.range h).map fun e => ⟨go.toLower e.1, List.intercalate [32] e.2⟩

def marshalFields (fields : List Field) : Except Failure Bytes := do
  let parts ← mapAll Field.Marshal fields
  return parts.flatten

def fieldSection (go : Go) (h : HttpHeader) : Except Failure Bytes := do
  let data ← marshalFields (createHeaderFields go h)
  encodeVarintSlice data

def RequestControlData.Marshal (d : RequestControlData) : Except Failure Bytes := do
  let parts ← mapAll encodeVarintSlice [d.method, d.scheme, d.authority, d.path]
  return parts.flatten

def createRequestControlData (r : HttpRequest) : RequestControlData := ⟨r.Method, r.URL.Scheme, r.Host, r.URL.Path⟩

/-- `BinaryRequest.Marshal`. -/
def HttpRequest.Marshal (go : Go) (r : HttpRequest) : Except Failure Bytes := do
  let frame ← write 0
  let controlData ← (createRequestControlData r).Marshal
  let headerFields ← fieldSection go r.Header
  let content ← encodeVarintSlice r.Body
  let trailerFields ← fieldSection go (r.Trailer.getD .empty)
  return frame ++ controlData ++ headerFields ++ content ++ trailerFields

/-- `BinaryResponse.Marshal`. -/
def HttpResponse.Marshal (go : Go) (r : HttpResponse) : Except Failure Bytes := do
  let frame ← write 1
  require (200 ≤ r.StatusCode ∧ r.StatusCode ≤ 599) .errInformationalNotSupported
  let controlData ← write r.StatusCode
  let headerFields ← fieldSection go r.Header
  let body ← r.Body.mapError Failure.other
  let content ← encodeVarintSlice body
  let trailerFields ← fieldSection go r.Trailer
  return frame ++ controlData ++ headerFields ++ content ++ trailerFields

/-! ## Reading -/

def readVarintSlice (b : Bytes) : Except Failure (Bytes × Bytes) := do
  let (len, b) ← read b
  require (len ≤ b.length) .errTruncated
  return (b.take len, b.drop len)

/-- `field.Unmarshal`. -/
def readField (go : Go) (b : Bytes) : Except Failure (Field × Bytes) := do
  let (name, b) ← readVarintSlice b
  let (value, b) ← readVarintSlice b
  return (⟨go.toLower name, value⟩, b)

/-- `fieldList.Unmarshal`. -/
def unmarshalFields (go : Go) (data : Bytes) : Except Failure (List Field) :=
  readAll (readField go) .endless data.length data

def UnmarshalRequestControlData (b : Bytes) : Except Failure (RequestControlData × Bytes) := do
  let (method, b) ← readVarintSlice b
  let (scheme, b) ← readVarintSlice b
  let (authority, b) ← readVarintSlice b
  let (path, b) ← readVarintSlice b
  return (⟨method, scheme, authority, path⟩, b)

def headerMap (fields : List Field) : OrderedMap Bytes Bytes :=
  fields.foldl (fun m f => m.set f.name f.value) .empty

def authority (controlData : RequestControlData) (fields : List Field) : Bytes :=
  if controlData.authority ≠ [] then controlData.authority
  else
    let authority := ((headerMap fields).get? (text "Host")).getD []
    if authority ≠ [] then authority else ((headerMap fields).get? (text "host")).getD []

/-- `fmt.Sprintf("%s://%s%s", scheme, authority, path)`. -/
def urlText (scheme authority path : Bytes) : Bytes := scheme ++ text "://" ++ authority ++ path

def allowedFields (fields : List Field) : Prop := ∀ f ∈ fields, isProhibitedField f.name = false

instance (fields : List Field) : Decidable (allowedFields fields) :=
  inferInstanceAs (Decidable (∀ f ∈ fields, isProhibitedField f.name = false))

/-- The trailers behind the content. -/
def readTrailers (go : Go) (content b : Bytes) : Except Failure (List Field) := do
  let (encodedFieldData, _) ← readVarintSlice b
  if content = [] then
    require (encodedFieldData = []) (.other (text "Improperly truncated request"))
    return []
  else
    let trailerFields ← unmarshalFields go encodedFieldData
    require (allowedFields trailerFields) .errProhibitedField
    return trailerFields

def HttpRequest.setHeader (r : HttpRequest) (f : Field) : HttpRequest :=
  { r with Header := r.Header.Set f.name f.value }

/-- A write to a nil map panics. -/
def HttpRequest.setTrailer (r : HttpRequest) (f : Field) : Except Failure HttpRequest :=
  match r.Trailer with
  | none => .error .panicked
  | some trailer => .ok { r with Trailer := some (trailer.Set f.name f.value) }

def setTrailers (r : HttpRequest) : List Field → Except Failure HttpRequest
  | [] => .ok r
  | f :: rest => do
    let r ← r.setTrailer f
    setTrailers r rest

/-- `UnmarshalBinaryRequest` up to its last loop, over the trailers. -/
def readRequest (go : Go) (data : Bytes) : Except Failure (HttpRequest × List Field) := do
  let (indicator, b) ← read data
  require (indicator ≠ 1) (.other (text "Expected binary HTTP request, not binary HTTP response"))
  -- the cases of 2 and 3 are empty, and Go does not fall through
  require (indicator ≤ 3) (.other (text "Unsupported binary HTTP message type"))
  let (controlData, b) ← UnmarshalRequestControlData b
  require (controlData.method ∈ methods)
    (.other (text "Unsupported binary HTTP message request method: " ++ controlData.method))
  let (encodedFieldData, b) ← readVarintSlice b
  let headerFields ← unmarshalFields go encodedFieldData
  require (allowedFields headerFields) .errProhibitedField
  let url ← (go.parse (urlText controlData.scheme (authority controlData headerFields) controlData.path)).mapError
    Failure.other
  let (content, b) ← readVarintSlice b
  let trailerFields ← readTrailers go content b
  let request ← NewRequest go controlData.method (go.string url) content
  return (headerFields.foldl HttpRequest.setHeader request, trailerFields)

def UnmarshalBinaryRequest (go : Go) (data : Bytes) : Except Failure HttpRequest := do
  let (request, trailerFields) ← readRequest go data
  setTrailers request trailerFields

def messageMap (fields : List Field) : HttpHeader := fields.foldl (fun m f => m.set f.name [f.value]) .empty

/-- An answer may end before its trailers. -/
def readResponseTrailers (b : Bytes) : Except Failure Bytes :=
  match readVarintSlice b with
  | .ok (encodedFieldData, _) => .ok encodedFieldData
  | .error .EOF => .ok []
  | .error e => .error e

def UnmarshalBinaryResponse (go : Go) (data : Bytes) : Except Failure HttpResponse := do
  let (indicator, b) ← read data
  require (indicator ≠ 0) (.other (text "Expected binary HTTP response, not binary HTTP request"))
  require (indicator ≤ 3) (.other (text "Unsupported binary HTTP message type"))
  let (finalStatusCode, b) ← read b
  require (200 ≤ finalStatusCode ∧ finalStatusCode ≤ 599) .errInformationalNotSupported
  let (encodedFieldData, b) ← readVarintSlice b
  let headerFields ← unmarshalFields go encodedFieldData
  let (content, b) ← readVarintSlice b
  let encodedFieldData ← readResponseTrailers b
  let trailerFields ← unmarshalFields go encodedFieldData
  return ⟨finalStatusCode, messageMap headerFields, messageMap trailerFields, .ok content⟩

/-! ## What the readers take -/

def Slice (value front : Bytes) : Prop := ∃ head, Encodes value.length head ∧ front = head ++ value

def Slices (values : List Bytes) (front : Bytes) : Prop := ∃ parts, front = parts.flatten ∧ List.Forall₂ Slice values parts

theorem slices_nil {front : Bytes} : Slices [] front ↔ front = [] := by
  constructor
  · rintro ⟨parts, rfl, hParts⟩
    cases hParts
    rfl
  · rintro rfl
    exact ⟨[], rfl, .nil⟩

theorem slices_cons {value : Bytes} {values : List Bytes} {front : Bytes} :
    Slices (value :: values) front ↔ ∃ a b, front = a ++ b ∧ Slice value a ∧ Slices values b := by
  constructor
  · rintro ⟨parts, rfl, hParts⟩
    cases hParts with
    | cons hSlice hParts => exact ⟨_, _, rfl, hSlice, _, rfl, hParts⟩
  · rintro ⟨a, b, rfl, hSlice, parts, rfl, hParts⟩
    exact ⟨a :: parts, rfl, .cons hSlice hParts⟩

theorem Encodes.ne_nil {v : Nat} {front : Bytes} (h : Encodes v front) : front ≠ [] := by
  rintro rfl
  obtain ⟨k, -, hLength, -⟩ := h
  have hPos := Nat.two_pow_pos k
  rw [List.length_nil] at hLength
  omega

theorem Slice.ne_nil {value front : Bytes} (h : Slice value front) : front ≠ [] := by
  obtain ⟨head, hHead, rfl⟩ := h
  exact List.append_ne_nil_of_left_ne_nil (Encodes.ne_nil hHead) value

theorem readVarintSlice_eq_ok (input value rest : Bytes) :
    readVarintSlice input = .ok (value, rest) ↔ ∃ front, input = front ++ rest ∧ Slice value front := by
  simp only [readVarintSlice, bind_eq_ok, Prod.exists, reads_encodes _ _ _, require_eq_ok, pure, Except.pure,
    Except.ok.injEq, Prod.mk.injEq]
  constructor
  · rintro ⟨len, b, ⟨head, rfl, hHead⟩, -, hLen, rfl, rfl⟩
    refine ⟨head ++ b.take len, ?_, head, ?_, rfl⟩
    · rw [List.append_assoc, List.take_append_drop]
    · rwa [List.length_take_of_le hLen]
  · rintro ⟨-, rfl, head, hHead, rfl⟩
    refine ⟨value.length, value ++ rest, ⟨head, List.append_assoc .., hHead⟩, (), ?_, ?_, ?_⟩
    · rw [List.length_append]
      omega
    · exact List.take_left
    · exact List.drop_left

def FieldForm (go : Go) (f : Field) (front : Bytes) : Prop :=
  ∃ name, go.toLower name = f.name ∧ Slices [name, f.value] front

theorem reads_field (go : Go) : Reads (readField go) (FieldForm go) := by
  intro input f rest
  simp only [readField, bind_eq_ok, Prod.exists, readVarintSlice_eq_ok, pure, Except.pure, Except.ok.injEq,
    Prod.mk.injEq]
  constructor
  · rintro ⟨name, -, ⟨a, rfl, hName⟩, value, -, ⟨b, rfl, hValue⟩, rfl, rfl⟩
    exact ⟨a ++ b, (List.append_assoc ..).symm, name, rfl, [a, b], by simp, .cons hName (.cons hValue .nil)⟩
  · rintro ⟨_, rfl, name, hLower, hSlices⟩
    obtain ⟨a, _, rfl, hName, hSlices⟩ := slices_cons.mp hSlices
    obtain ⟨b, _, rfl, hValue, hNil⟩ := slices_cons.mp hSlices
    obtain rfl := slices_nil.mp hNil
    refine ⟨name, b ++ rest, ⟨a, by simp, hName⟩, f.value, rest, ⟨b, rfl, hValue⟩, ?_, rfl⟩
    rw [hLower]

def Fields (go : Go) (fields : List Field) (data : Bytes) : Prop :=
  ∃ parts, data = parts.flatten ∧ List.Forall₂ (FieldForm go) fields parts

theorem FieldForm.ne_nil {go : Go} {f : Field} {front : Bytes} (h : FieldForm go f front) : front ≠ [] := by
  obtain ⟨name, -, hSlices⟩ := h
  obtain ⟨a, b, rfl, hName, -⟩ := slices_cons.mp hSlices
  exact List.append_ne_nil_of_left_ne_nil hName.ne_nil b

theorem unmarshalFields_eq_ok (go : Go) (data : Bytes) (fields : List Field) :
    unmarshalFields go data = .ok fields ↔ Fields go fields data :=
  (reads_field go).all (fun _ _ => FieldForm.ne_nil) .endless (le_refl data.length) fields

theorem reads_controlData : Reads UnmarshalRequestControlData fun d front =>
    Slices [d.method, d.scheme, d.authority, d.path] front := by
  intro input d rest
  simp only [UnmarshalRequestControlData, bind_eq_ok, Prod.exists, readVarintSlice_eq_ok, pure, Except.pure,
    Except.ok.injEq, Prod.mk.injEq]
  constructor
  · rintro ⟨m, -, ⟨a, rfl, hm⟩, s, -, ⟨b, rfl, hs⟩, h, -, ⟨c, rfl, hh⟩, p, -, ⟨e, rfl, hp⟩, rfl, rfl⟩
    exact ⟨a ++ b ++ c ++ e, by simp, [a, b, c, e], by simp, .cons hm (.cons hs (.cons hh (.cons hp .nil)))⟩
  · rintro ⟨_, rfl, hSlices⟩
    obtain ⟨a, _, rfl, hm, hSlices⟩ := slices_cons.mp hSlices
    obtain ⟨b, _, rfl, hs, hSlices⟩ := slices_cons.mp hSlices
    obtain ⟨c, _, rfl, hh, hSlices⟩ := slices_cons.mp hSlices
    obtain ⟨e, _, rfl, hp, hNil⟩ := slices_cons.mp hSlices
    obtain rfl := slices_nil.mp hNil
    exact ⟨d.method, b ++ (c ++ (e ++ rest)), ⟨a, by simp, hm⟩, d.scheme, c ++ (e ++ rest), ⟨b, rfl, hs⟩, d.authority,
      e ++ rest, ⟨c, rfl, hh⟩, d.path, rest, ⟨e, rfl, hp⟩, rfl, rfl⟩

theorem mapError_eq_ok {ε ε' α : Type} {x : Except ε α} {f : ε → ε'} {a : α} : x.mapError f = .ok a ↔ x = .ok a := by
  cases x <;> simp [Except.mapError]

theorem fields_nil {go : Go} {fields : List Field} : Fields go fields [] ↔ fields = [] := by
  rw [← unmarshalFields_eq_ok, unmarshalFields, List.length_nil, readAll, Except.ok.injEq, eq_comm]

theorem allowedFields_nil : allowedFields [] := nofun

theorem readTrailers_eq_ok {go : Go} {content b : Bytes} {fields : List Field} :
    readTrailers go content b = .ok fields ↔ ∃ trailerData front padding, b = front ++ padding ∧
      Slice trailerData front ∧ (content = [] → trailerData = []) ∧ Fields go fields trailerData ∧
      allowedFields fields := by
  unfold readTrailers
  by_cases hContent : content = []
  · simp only [if_pos hContent, bind_eq_ok, Prod.exists, readVarintSlice_eq_ok, require_eq_ok, pure, Except.pure,
      Except.ok.injEq]
    constructor
    · rintro ⟨_, padding, ⟨front, rfl, hSlice⟩, -, rfl, rfl⟩
      exact ⟨[], front, padding, rfl, hSlice, fun _ => rfl, fields_nil.mpr rfl, allowedFields_nil⟩
    · rintro ⟨trailerData, front, padding, rfl, hSlice, hTruncated, hFields, -⟩
      obtain rfl := hTruncated hContent
      exact ⟨[], padding, ⟨front, rfl, hSlice⟩, (), rfl, (fields_nil.mp hFields).symm⟩
  · simp only [if_neg hContent, bind_eq_ok, Prod.exists, readVarintSlice_eq_ok, require_eq_ok, pure, Except.pure,
      Except.ok.injEq, unmarshalFields_eq_ok]
    constructor
    · rintro ⟨trailerData, padding, ⟨front, rfl, hSlice⟩, _, hFields, -, hAllowed, rfl⟩
      exact ⟨trailerData, front, padding, rfl, hSlice, fun h => absurd h hContent, hFields, hAllowed⟩
    · rintro ⟨trailerData, front, padding, rfl, hSlice, -, hFields, hAllowed⟩
      exact ⟨trailerData, padding, ⟨front, rfl, hSlice⟩, fields, hFields, (), hAllowed, rfl⟩

/-- The parts of a request on the wire. -/
structure RequestFrame where
  indicator : Nat
  controlData : RequestControlData
  headerData : Bytes
  content : Bytes
  trailerData : Bytes

def RequestFrame.Encoding (m : RequestFrame) (front : Bytes) : Prop :=
  ∃ a b c d, front = a ++ b ++ c ++ d ∧ Encodes m.indicator a ∧
    Slices [m.controlData.method, m.controlData.scheme, m.controlData.authority, m.controlData.path] b ∧
    Slices [m.headerData, m.content] c ∧ Slice m.trailerData d

/-- What `UnmarshalBinaryRequest` asks of the parts. -/
structure Readable (go : Go) (m : RequestFrame) (headerFields trailerFields : List Field) (u : URL) : Prop where
  indicator : m.indicator ≠ 1 ∧ m.indicator ≤ 3
  method : m.controlData.method ∈ methods
  headers : Fields go headerFields m.headerData
  headersAllowed : allowedFields headerFields
  truncated : m.content = [] → m.trailerData = []
  trailers : Fields go trailerFields m.trailerData
  trailersAllowed : allowedFields trailerFields
  url : ∃ parsed, go.parse (urlText m.controlData.scheme (authority m.controlData headerFields) m.controlData.path) =
    .ok parsed ∧ go.parse (go.string parsed) = .ok u

def freshRequest (method : Bytes) (u : URL) (content : Bytes) : HttpRequest :=
  let req := newRequest method u.toUrl
  ⟨method, { u with toUrl := req.URL }, req.Host, .empty, none, content⟩

def requestOf (m : RequestFrame) (headerFields : List Field) (u : URL) : HttpRequest :=
  headerFields.foldl HttpRequest.setHeader (freshRequest m.controlData.method u m.content)

theorem newRequest_eq_ok {go : Go} {method url content : Bytes} {r : HttpRequest} :
    NewRequest go method url content = .ok r ↔ ∃ u, go.parse url = .ok u ∧ freshRequest method u content = r := by
  simp only [NewRequest, bind_eq_ok, mapError_eq_ok, pure, Except.pure, Except.ok.injEq, freshRequest]

theorem readRequest_eq_ok {go : Go} {data : Bytes} {r : HttpRequest} {trailerFields : List Field} :
    readRequest go data = .ok (r, trailerFields) ↔ ∃ m front padding headerFields u, data = front ++ padding ∧
      m.Encoding front ∧ Readable go m headerFields trailerFields u ∧ r = requestOf m headerFields u := by
  simp only [readRequest, bind_eq_ok, Prod.exists, reads_encodes _ _ _, reads_controlData _ _ _, readVarintSlice_eq_ok,
    require_eq_ok, unmarshalFields_eq_ok, mapError_eq_ok, readTrailers_eq_ok, newRequest_eq_ok, pure, Except.pure,
    Except.ok.injEq, Prod.mk.injEq]
  constructor
  · rintro ⟨indicator, _, ⟨a, rfl, hIndicator⟩, -, hResponse, -, hKnown, controlData, _, ⟨b, rfl, hControl⟩, -, hMethod,
      headerData, _, ⟨c, rfl, hHeaders⟩, headerFields, hHeaderFields, -, hAllowed, parsed, hParsed, content, _,
      ⟨d, rfl, hContent⟩, _, ⟨trailerData, e, padding, rfl, hTrailers, hTruncated, hTrailerFields, hTrailersAllowed⟩,
      _, ⟨u, hUrl, rfl⟩, rfl, rfl⟩
    refine ⟨⟨indicator, controlData, headerData, content, trailerData⟩, a ++ b ++ (c ++ d) ++ e, padding, headerFields, u,
      by simp, ⟨a, b, c ++ d, e, rfl, hIndicator, hControl, ?_, hTrailers⟩, ?_, rfl⟩
    · exact slices_cons.mpr ⟨c, d, rfl, hHeaders, [d], by simp, .cons hContent .nil⟩
    · exact ⟨⟨hResponse, hKnown⟩, hMethod, hHeaderFields, hAllowed, hTruncated, hTrailerFields, hTrailersAllowed, parsed,
        hParsed, hUrl⟩
  · rintro ⟨m, _, padding, headerFields, u, rfl, ⟨a, b, _, e, rfl, hIndicator, hControl, hSlices, hTrailers⟩, h, rfl⟩
    obtain ⟨c, _, rfl, hHeaders, hSlices⟩ := slices_cons.mp hSlices
    obtain ⟨d, _, rfl, hContent, hNil⟩ := slices_cons.mp hSlices
    obtain rfl := slices_nil.mp hNil
    obtain ⟨parsed, hParsed, hUrl⟩ := h.url
    refine ⟨m.indicator, b ++ c ++ d ++ e ++ padding, ⟨a, by simp, hIndicator⟩, (), h.indicator.1, (), h.indicator.2,
      m.controlData, c ++ d ++ e ++ padding, ⟨b, by simp, hControl⟩, (), h.method, m.headerData, d ++ e ++ padding,
      ⟨c, by simp, hHeaders⟩, headerFields, h.headers, (), h.headersAllowed, parsed, hParsed, m.content, e ++ padding,
      ⟨d, by simp, hContent⟩, trailerFields, ⟨m.trailerData, e, padding, rfl, hTrailers, h.truncated, h.trailers,
      h.trailersAllowed⟩, _, ⟨u, hUrl, rfl⟩, rfl, rfl⟩

/-! ## What the reader of requests does -/

/-- An error that the caller gets to see. -/
def Returned (e : Failure) : Prop := e ≠ .panicked ∧ e ≠ .endless

theorem read_returns (input : Bytes) : Raises (read input) Returned := by
  intro e h
  rw [read_raises input e h]
  exact ⟨nofun, nofun⟩

theorem require_returns {α : Type} {p : Prop} [Decidable p] {error : Failure} {f : Unit → Except Failure α}
    (hError : Returned error) (hf : Raises (f ()) Returned) : Raises (require p error >>= f) Returned :=
  (raises_require hError).bind fun _ _ => hf

theorem readVarintSlice_returns (input : Bytes) : Raises (readVarintSlice input) Returned := by
  apply (read_returns input).bind
  rintro ⟨len, b⟩ _
  exact require_returns ⟨nofun, nofun⟩ raises_ok

theorem readField_returns (go : Go) (input : Bytes) : Raises (readField go input) Returned := by
  apply (readVarintSlice_returns input).bind
  rintro ⟨name, b⟩ _
  apply (readVarintSlice_returns b).bind
  rintro ⟨value, rest⟩ _
  exact raises_ok

theorem unmarshalFields_returns (go : Go) (data : Bytes) : Raises (unmarshalFields go data) Returned :=
  (reads_field go).all_raises (fun _ _ => FieldForm.ne_nil) (readField_returns go) .endless (le_refl data.length)

theorem controlData_returns (b : Bytes) : Raises (UnmarshalRequestControlData b) Returned := by
  apply (readVarintSlice_returns b).bind
  rintro ⟨method, b⟩ _
  apply (readVarintSlice_returns b).bind
  rintro ⟨scheme, b⟩ _
  apply (readVarintSlice_returns b).bind
  rintro ⟨authority, b⟩ _
  apply (readVarintSlice_returns b).bind
  rintro ⟨path, b⟩ _
  exact raises_ok

theorem readTrailers_returns (go : Go) (content b : Bytes) : Raises (readTrailers go content b) Returned := by
  apply (readVarintSlice_returns b).bind
  rintro ⟨encodedFieldData, rest⟩ _
  dsimp only
  split
  · exact require_returns ⟨nofun, nofun⟩ raises_ok
  · apply (unmarshalFields_returns go encodedFieldData).bind
    intro fields _
    exact require_returns ⟨nofun, nofun⟩ raises_ok

theorem parse_returns (go : Go) (url : Bytes) : Raises ((go.parse url).mapError Failure.other) Returned := by
  intro e h
  cases hParse : go.parse url <;> rw [hParse] at h
  · cases h
    exact ⟨nofun, nofun⟩
  · cases h

theorem readRequest_returns (go : Go) (data : Bytes) : Raises (readRequest go data) Returned := by
  apply (read_returns data).bind
  rintro ⟨indicator, b⟩ _
  refine require_returns ⟨nofun, nofun⟩ ?_
  refine require_returns ⟨nofun, nofun⟩ ?_
  apply (controlData_returns b).bind
  rintro ⟨controlData, b⟩ _
  refine require_returns ⟨nofun, nofun⟩ ?_
  apply (readVarintSlice_returns b).bind
  rintro ⟨headerData, b⟩ _
  apply (unmarshalFields_returns go headerData).bind
  intro headerFields _
  refine require_returns ⟨nofun, nofun⟩ ?_
  apply (parse_returns go _).bind
  intro url _
  apply (readVarintSlice_returns b).bind
  rintro ⟨content, b⟩ _
  apply (readTrailers_returns go content b).bind
  intro trailerFields _
  apply Raises.bind
  · apply (parse_returns go (go.string url)).bind
    intro u _
    exact raises_ok
  · intro request _
    exact raises_ok

theorem foldl_setHeader (fields : List Field) (r : HttpRequest) : fields.foldl HttpRequest.setHeader r =
    { r with Header := fields.foldl (fun h f => h.Set f.name f.value) r.Header } := by
  induction fields generalizing r with
  | nil => rfl
  | cons f rest ih =>
    rw [List.foldl_cons, ih]
    rfl

theorem requestOf_trailer (m : RequestFrame) (fields : List Field) (u : URL) : (requestOf m fields u).Trailer = none := by
  rw [requestOf, foldl_setHeader]
  rfl

theorem setTrailers_cons {r : HttpRequest} (h : r.Trailer = none) (f : Field) (rest : List Field) :
    setTrailers r (f :: rest) = .error .panicked := by
  rw [setTrailers, HttpRequest.setTrailer, h]
  rfl

theorem unmarshalRequest_eq_ok {go : Go} {data : Bytes} {r : HttpRequest} :
    UnmarshalBinaryRequest go data = .ok r ↔ ∃ m front padding headerFields u, data = front ++ padding ∧
      m.Encoding front ∧ Readable go m headerFields [] u ∧ r = requestOf m headerFields u := by
  simp only [UnmarshalBinaryRequest, bind_eq_ok, Prod.exists, readRequest_eq_ok]
  constructor
  · rintro ⟨request, trailerFields, ⟨m, front, padding, headerFields, u, rfl, hEncoding, hReadable, rfl⟩, hSet⟩
    cases trailerFields with
    | nil =>
      cases hSet
      exact ⟨m, front, padding, headerFields, u, rfl, hEncoding, hReadable, rfl⟩
    | cons f rest =>
      rw [setTrailers_cons (requestOf_trailer ..)] at hSet
      cases hSet
  · rintro ⟨m, front, padding, headerFields, u, rfl, hEncoding, hReadable, rfl⟩
    exact ⟨_, [], ⟨m, front, padding, headerFields, u, rfl, hEncoding, hReadable, rfl⟩, rfl⟩

theorem unmarshalRequest_panics_iff {go : Go} {data : Bytes} :
    UnmarshalBinaryRequest go data = .error .panicked ↔ ∃ m front padding headerFields trailerFields u,
      data = front ++ padding ∧ m.Encoding front ∧ Readable go m headerFields trailerFields u ∧ trailerFields ≠ [] := by
  simp only [UnmarshalBinaryRequest, bind_eq_error, Prod.exists, readRequest_eq_ok]
  constructor
  · rintro (hPanic | ⟨request, trailerFields, ⟨m, front, padding, headerFields, u, rfl, hEncoding, hReadable, rfl⟩, hSet⟩)
    · exact absurd rfl (readRequest_returns go data _ hPanic).1
    · refine ⟨m, front, padding, headerFields, trailerFields, u, rfl, hEncoding, hReadable, ?_⟩
      rintro rfl
      cases hSet
  · rintro ⟨m, front, padding, headerFields, trailerFields, u, rfl, hEncoding, hReadable, hSome⟩
    refine .inr ⟨_, trailerFields, ⟨m, front, padding, headerFields, u, rfl, hEncoding, hReadable, rfl⟩, ?_⟩
    cases trailerFields with
    | nil => exact absurd rfl hSome
    | cons f rest => exact setTrailers_cons (requestOf_trailer ..) f rest

theorem unmarshalRequest_ends (go : Go) (data : Bytes) : UnmarshalBinaryRequest go data ≠ .error .endless := by
  simp only [UnmarshalBinaryRequest, ne_eq, bind_eq_error, Prod.exists, readRequest_eq_ok]
  rintro (hEndless | ⟨request, trailerFields, ⟨m, front, padding, headerFields, u, rfl, -, -, rfl⟩, hSet⟩)
  · exact absurd rfl (readRequest_returns go data _ hEndless).2
  · cases trailerFields with
    | nil => cases hSet
    | cons f rest =>
      rw [setTrailers_cons (requestOf_trailer ..)] at hSet
      cases hSet

/-- A request is read back from each of its encodings, whatever padding follows; one with trailers makes the reader
panic; and the reader always ends. -/
theorem unmarshalRequest_exact (go : Go) (data : Bytes) :
    (∀ r, UnmarshalBinaryRequest go data = .ok r ↔ ∃ m front padding headerFields u, data = front ++ padding ∧
      m.Encoding front ∧ Readable go m headerFields [] u ∧ r = requestOf m headerFields u) ∧
    (UnmarshalBinaryRequest go data = .error .panicked ↔ ∃ m front padding headerFields trailerFields u,
      data = front ++ padding ∧ m.Encoding front ∧ Readable go m headerFields trailerFields u ∧ trailerFields ≠ []) ∧
    UnmarshalBinaryRequest go data ≠ .error .endless :=
  ⟨fun _ => unmarshalRequest_eq_ok, unmarshalRequest_panics_iff, unmarshalRequest_ends go data⟩

/-! ## Reading back what was written -/

theorem asciiLower_idem (c : UInt8) : asciiLower (asciiLower c) = asciiLower c := by
  unfold asciiLower
  grind

theorem canonicalByte_lower (upper : Bool) (c : UInt8) : canonicalByte upper (asciiLower c) = canonicalByte upper c := by
  unfold canonicalByte asciiLower
  grind

theorem canonicalBytes_lower (upper : Bool) (k : Bytes) :
    canonicalBytes upper (k.map asciiLower) = canonicalBytes upper k := by
  induction k generalizing upper with
  | nil => rfl
  | cons c rest ih => rw [List.map_cons, canonicalBytes, canonicalBytes, canonicalByte_lower, ih]

theorem tokenSigns_ascii : ∀ c ∈ tokenSigns, c < 128 ∧ asciiLower c = c := by
  have hAll : tokenSigns.all (fun c => c < 128 ∧ asciiLower c = c) = true := by decide
  exact fun c hc => of_decide_eq_true (List.all_eq_true.mp hAll c hc)

theorem valid_ascii {c : UInt8} (h : validHeaderFieldByte c) : c < 128 := by
  have hSign := tokenSigns_ascii c
  unfold validHeaderFieldByte at h
  grind

theorem valid_lower {c : UInt8} (h : validHeaderFieldByte c) : validHeaderFieldByte (asciiLower c) := by
  by_cases hUpper : 65 ≤ c ∧ c ≤ 90
  · have hRange : 97 ≤ c + 32 ∧ c + 32 ≤ 122 := by grind
    simp [validHeaderFieldByte, asciiLower, hUpper, hRange]
  · rwa [asciiLower, if_neg hUpper]

/-- A key as `http.Header` holds it. -/
structure Canonical (k : Bytes) : Prop where
  valid : k.all validHeaderFieldByte = true
  fixed : CanonicalMIMEHeaderKey k = k

theorem Canonical.toLower {go : Go} {k : Bytes} (h : Canonical k) : go.toLower k = k.map asciiLower :=
  go.toLower_ascii k fun c hc => valid_ascii (List.all_eq_true.mp h.valid c hc)

theorem Canonical.lower_valid {k : Bytes} (h : Canonical k) : (k.map asciiLower).all validHeaderFieldByte = true := by
  rw [List.all_map, List.all_eq_true]
  intro c hc
  exact valid_lower (List.all_eq_true.mp h.valid c hc)

theorem Canonical.lower_idem {go : Go} {k : Bytes} (h : Canonical k) : go.toLower (go.toLower k) = go.toLower k := by
  rw [h.toLower, go.toLower_ascii _ fun c hc => valid_ascii (List.all_eq_true.mp h.lower_valid c hc), List.map_map]
  apply List.map_congr_left
  intro c _
  exact asciiLower_idem c

theorem Canonical.of_lower {k : Bytes} (h : Canonical k) (go : Go) : CanonicalMIMEHeaderKey (go.toLower k) = k := by
  have hFixed := h.fixed
  rw [CanonicalMIMEHeaderKey, if_pos h.valid] at hFixed
  rw [h.toLower, CanonicalMIMEHeaderKey, if_pos h.lower_valid, canonicalBytes_lower, hFixed]

theorem Canonical.allowed {go : Go} {k : Bytes} (h : Canonical k) : isProhibitedField (go.toLower k) = false := by
  have hColon : ∀ name ∈ prohibitedFields, name.all validHeaderFieldByte = false := by decide
  by_contra hProhibited
  have hMem : go.toLower k ∈ prohibitedFields := by
    simpa [isProhibitedField] using hProhibited
  have hValid := hColon _ hMem
  rw [h.toLower, h.lower_valid] at hValid
  cases hValid

theorem slice_of_encode {data front : Bytes} (h : encodeVarintSlice data = .ok front) : Slice data front := by
  obtain ⟨head, hHead, hFront⟩ := bind_eq_ok.mp h
  cases hFront
  exact ⟨head, ((write_eq_ok _ _).mp hHead).1, rfl⟩

theorem slices_of_encode {values parts : List Bytes} (h : mapAll encodeVarintSlice values = .ok parts) :
    Slices values parts.flatten := ⟨parts, rfl, (mapAll_eq_ok.mp h).imp fun _ _ => slice_of_encode⟩

def Field.lower (go : Go) (f : Field) : Field := ⟨go.toLower f.name, f.value⟩

theorem fieldForm_of_marshal {go : Go} {f : Field} {front : Bytes} (h : f.Marshal = .ok front) :
    FieldForm go (f.lower go) front := by
  obtain ⟨name, hName, h⟩ := bind_eq_ok.mp h
  obtain ⟨value, hValue, hFront⟩ := bind_eq_ok.mp h
  cases hFront
  exact ⟨f.name, rfl, [name, value], by simp, .cons (slice_of_encode hName) (.cons (slice_of_encode hValue) .nil)⟩

theorem fields_of_marshal (go : Go) {fields : List Field} {data : Bytes} (h : marshalFields fields = .ok data) :
    Fields go (fields.map (Field.lower go)) data := by
  obtain ⟨parts, hParts, hData⟩ := bind_eq_ok.mp h
  cases hData
  refine ⟨parts, rfl, ?_⟩
  rw [List.forall₂_map_left_iff]
  exact (mapAll_eq_ok.mp hParts).imp fun _ _ => fieldForm_of_marshal

def HeaderKeys (h : HttpHeader) : Prop := ∀ k ∈ h.keys, Canonical k

theorem HeaderKeys.of_range {go : Go} {h : HttpHeader} (hKeys : HeaderKeys h) {e : Bytes × List Bytes}
    (he : e ∈ go.range h) : Canonical e.1 :=
  hKeys e.1 (List.mem_map_of_mem ((go.range_perm h).mem_iff.mp he))

theorem fields_of_section {go : Go} {h : HttpHeader} (hKeys : HeaderKeys h) {front : Bytes}
    (hSection : fieldSection go h = .ok front) :
    ∃ data, Slice data front ∧ Fields go (createHeaderFields go h) data := by
  obtain ⟨data, hData, hFront⟩ := bind_eq_ok.mp hSection
  refine ⟨data, slice_of_encode hFront, ?_⟩
  have hFields := fields_of_marshal go hData
  have hSame : (createHeaderFields go h).map (Field.lower go) = createHeaderFields go h := by
    rw [createHeaderFields, List.map_map]
    apply List.map_congr_left
    intro e he
    simp only [Function.comp_apply, Field.lower, (hKeys.of_range he).lower_idem]
  rwa [hSame] at hFields

theorem allowedFields_of_keys {go : Go} {h : HttpHeader} (hKeys : HeaderKeys h) :
    allowedFields (createHeaderFields go h) := by
  intro f hf
  obtain ⟨e, he, rfl⟩ := List.mem_map.mp hf
  exact (hKeys.of_range he).allowed

def joined (values : List Bytes) : Bytes := List.intercalate [32] values

theorem range_keys_nodup (go : Go) (h : HttpHeader) : ((go.range h).map Prod.fst).Nodup :=
  ((go.range_perm h).map Prod.fst).nodup_iff.mpr h.nodup

theorem entries_of_range {go : Go} {h : HttpHeader} (key : Bytes → Bytes) (hInjective : Set.InjOn key {k | k ∈ h.keys}) :
    (OrderedMap.ofList ((go.range h).map fun e => (key e.1, [joined e.2]))).entries.Perm
      (h.entries.map fun e => (key e.1, [joined e.2])) := by
  have hKeys : ((go.range h).map fun e => (key e.1, [joined e.2])).map Prod.fst =
      ((go.range h).map Prod.fst).map key := by
    rw [List.map_map, List.map_map]
    rfl
  rw [OrderedMap.entries_ofList]
  · exact (go.range_perm h).map _
  · rw [hKeys]
    apply (range_keys_nodup go h).map_on
    intro a ha b hb
    have hMem : ∀ c ∈ (go.range h).map Prod.fst, c ∈ h.keys := fun c hc =>
      ((go.range_perm h).map Prod.fst).mem_iff.mp hc
    exact fun hEq => hInjective (hMem a ha) (hMem b hb) hEq

theorem requestOf_header {go : Go} {h : HttpHeader} (hKeys : HeaderKeys h) (m : RequestFrame) (u : URL) :
    (requestOf m (createHeaderFields go h) u).Header.entries.Perm (h.entries.map fun e => (e.1, [joined e.2])) := by
  have hHeader : (requestOf m (createHeaderFields go h) u).Header =
      .ofList ((go.range h).map fun e => (e.1, [joined e.2])) := by
    rw [requestOf, foldl_setHeader, createHeaderFields, OrderedMap.ofList, List.foldl_map, List.foldl_map]
    apply List.foldl_ext
    intro acc e he
    rw [HttpHeader.Set, (hKeys.of_range he).of_lower]
    rfl
  rw [hHeader]
  exact entries_of_range id Function.injective_id.injOn

theorem messageMap_header {go : Go} {h : HttpHeader} (hKeys : HeaderKeys h) :
    (messageMap (createHeaderFields go h)).entries.Perm (h.entries.map fun e => (go.toLower e.1, [joined e.2])) := by
  have hMap : messageMap (createHeaderFields go h) =
      .ofList ((go.range h).map fun e => (go.toLower e.1, [joined e.2])) := by
    rw [messageMap, createHeaderFields, OrderedMap.ofList, List.foldl_map, List.foldl_map]
    rfl
  rw [hMap]
  apply entries_of_range
  intro a ha b hb hEq
  rw [← (hKeys a ha).of_lower go, hEq, (hKeys b hb).of_lower]

theorem marshalRequest_encoding {go : Go} {r : HttpRequest} {data : Bytes} (hHeader : HeaderKeys r.Header)
    (hTrailer : HeaderKeys (r.Trailer.getD .empty)) (h : r.Marshal go = .ok data) :
    ∃ headerData trailerData, RequestFrame.Encoding ⟨0, createRequestControlData r, headerData, r.Body, trailerData⟩ data ∧
      Fields go (createHeaderFields go r.Header) headerData ∧
      Fields go (createHeaderFields go (r.Trailer.getD .empty)) trailerData := by
  obtain ⟨frame, hFrame, h⟩ := bind_eq_ok.mp h
  obtain ⟨control, hControl, h⟩ := bind_eq_ok.mp h
  obtain ⟨headers, hHeaders, h⟩ := bind_eq_ok.mp h
  obtain ⟨content, hContent, h⟩ := bind_eq_ok.mp h
  obtain ⟨trailers, hTrailers, hData⟩ := bind_eq_ok.mp h
  cases hData
  obtain ⟨parts, hParts, hControl⟩ := bind_eq_ok.mp hControl
  cases hControl
  obtain ⟨headerData, hHeaderSlice, hHeaderFields⟩ := fields_of_section hHeader hHeaders
  obtain ⟨trailerData, hTrailerSlice, hTrailerFields⟩ := fields_of_section hTrailer hTrailers
  refine ⟨headerData, trailerData,
    ⟨frame, parts.flatten, headers ++ content, trailers, by simp, ?_, ?_, ?_, hTrailerSlice⟩,
    hHeaderFields, hTrailerFields⟩
  · exact ((write_eq_ok _ _).mp hFrame).1
  · exact slices_of_encode hParts
  · exact ⟨[headers, content], by simp, .cons hHeaderSlice (.cons (slice_of_encode hContent) .nil)⟩

theorem marshalled_readable {go : Go} {r : HttpRequest} {data : Bytes} (hMethod : r.Method ∈ methods) (hHost : r.Host ≠ [])
    (hHeader : HeaderKeys r.Header) (hTrailer : HeaderKeys (r.Trailer.getD .empty)) (hMarshal : r.Marshal go = .ok data)
    {parsed u : URL} (hParsed : go.parse (urlText r.URL.Scheme r.Host r.URL.Path) = .ok parsed)
    (hUrl : go.parse (go.string parsed) = .ok u)
    (hTruncated : r.Body = [] → createHeaderFields go (r.Trailer.getD .empty) = []) :
    ∃ m : RequestFrame, m.Encoding data ∧ m.controlData.method = r.Method ∧ m.content = r.Body ∧
      Readable go m (createHeaderFields go r.Header) (createHeaderFields go (r.Trailer.getD .empty)) u := by
  obtain ⟨headerData, trailerData, hEncoding, hHeaders, hTrailers⟩ := marshalRequest_encoding hHeader hTrailer hMarshal
  have hAuthority : authority (createRequestControlData r) (createHeaderFields go r.Header) = r.Host := if_pos hHost
  refine ⟨_, hEncoding, rfl, rfl, ?_⟩
  constructor
  · exact ⟨nofun, Nat.zero_le 3⟩
  · exact hMethod
  · exact hHeaders
  · exact allowedFields_of_keys hHeader
  · intro hBody
    rw [hTruncated hBody] at hTrailers
    obtain ⟨parts, hParts, hNone⟩ := hTrailers
    cases hNone
    exact hParts
  · exact hTrailers
  · exact allowedFields_of_keys hTrailer
  · rw [hAuthority]
    exact ⟨parsed, hParsed, hUrl⟩

def isLetter (c : UInt8) : Bool := (65 ≤ c && c ≤ 90) || (97 ≤ c && c ≤ 122)

def isSchemeByte (c : UInt8) : Bool := isLetter c || (48 ≤ c && c ≤ 57) || c ∈ [43, 45, 46]

/-- The signs at which a host ends, or which stand for something else in it. -/
def hostEnds : List UInt8 := [47, 63, 35, 64, 37]

/-- A scheme, a host that is read as it stands, and a path that is set off from it. -/
structure Plain (scheme host path : Bytes) : Prop where
  scheme : ∃ first rest, scheme = first :: rest ∧ isLetter first = true ∧ ∀ c ∈ rest, isSchemeByte c = true
  host : host ≠ [] ∧ ∀ c ∈ host, c ∉ hostEnds
  path : ∀ c ∈ path.head?, c = 47

/-- What stands between `://` and the path is the host, and it is written out as it was read. -/
structure KeepsHosts (go : Go) : Prop where
  parse : ∀ scheme host path u, Plain scheme host path → go.parse (urlText scheme host path) = .ok u → u.Host = host
  string : ∀ url u u', (∀ c ∈ u.Host, c ∉ hostEnds) → go.parse url = .ok u → go.parse (go.string u) = .ok u' →
    u'.Host = u.Host

/-- A written request without trailers is read back with its method, its host, its body and its header, each header's
values joined; one with trailers and a body makes the reader panic. -/
theorem request_round_trip {go : Go} (hGo : KeepsHosts go) {r : HttpRequest} {data : Bytes}
    (hMethod : r.Method ∈ methods) (hPlain : Plain r.URL.Scheme r.Host r.URL.Path) (hHeader : HeaderKeys r.Header)
    (hTrailer : HeaderKeys (r.Trailer.getD .empty)) (hMarshal : r.Marshal go = .ok data) {parsed u : URL}
    (hParsed : go.parse (urlText r.URL.Scheme r.Host r.URL.Path) = .ok parsed)
    (hUrl : go.parse (go.string parsed) = .ok u) (padding : Bytes) :
    ((r.Trailer.getD .empty).entries = [] → ∃ r', UnmarshalBinaryRequest go (data ++ padding) = .ok r' ∧
      { r' with Header := .empty } = freshRequest r.Method u r.Body ∧ r'.Host = removeEmptyPort r.Host ∧
      r'.Header.entries.Perm (r.Header.entries.map fun e => (e.1, [joined e.2]))) ∧
    ((r.Trailer.getD .empty).entries ≠ [] → r.Body ≠ [] →
      UnmarshalBinaryRequest go (data ++ padding) = .error .panicked) := by
  have hNone : (r.Trailer.getD .empty).entries = [] ↔ createHeaderFields go (r.Trailer.getD .empty) = [] := by
    have hPerm := go.range_perm (r.Trailer.getD .empty)
    rw [createHeaderFields, List.map_eq_nil_iff]
    constructor
    · intro h
      rw [h] at hPerm
      exact hPerm.eq_nil
    · intro h
      rw [h] at hPerm
      exact hPerm.symm.eq_nil
  constructor
  · intro hEmpty
    obtain ⟨m, hEncoding, hSameMethod, hContent, hReadable⟩ :=
      marshalled_readable hMethod hPlain.host.1 hHeader hTrailer hMarshal hParsed hUrl fun _ => hNone.mp hEmpty
    rw [hNone.mp hEmpty] at hReadable
    have hFresh : { requestOf m (createHeaderFields go r.Header) u with Header := .empty } =
        freshRequest r.Method u r.Body := by
      rw [requestOf, foldl_setHeader, hSameMethod, hContent]
      rfl
    have hHost : u.Host = r.Host := by
      have hFirst := hGo.parse _ _ _ _ hPlain hParsed
      exact (hGo.string _ _ _ (hFirst ▸ hPlain.host.2) hParsed hUrl).trans hFirst
    refine ⟨requestOf m (createHeaderFields go r.Header) u, ?_, hFresh, ?_, requestOf_header hHeader m u⟩
    · exact unmarshalRequest_eq_ok.mpr ⟨m, data, padding, _, u, rfl, hEncoding, hReadable, rfl⟩
    · have hFreshHost : (requestOf m (createHeaderFields go r.Header) u).Host = removeEmptyPort u.Host :=
        congrArg HttpRequest.Host hFresh
      rw [hFreshHost, hHost]
  · intro hSome hBody
    obtain ⟨m, hEncoding, -, -, hReadable⟩ :=
      marshalled_readable hMethod hPlain.host.1 hHeader hTrailer hMarshal hParsed hUrl fun h => absurd h hBody
    exact unmarshalRequest_panics_iff.mpr
      ⟨m, data, padding, _, _, u, rfl, hEncoding, hReadable, fun h => hSome (hNone.mpr h)⟩

def plainGo : Go where
  toLower := List.map asciiLower
  toLower_ascii _ _ := rfl
  parse url :=
    if url = text "http://a/b" then .ok ⟨⟨text "http", text "a", text "/b"⟩, []⟩ else .error (text "invalid URL")
  string u := u.Scheme ++ text "://" ++ u.Host ++ u.Path
  range := OrderedMap.entries
  range_perm _ := List.Perm.refl _

def plainRequest : HttpRequest :=
  ⟨text "GET", ⟨⟨text "http", text "a", text "/b"⟩, []⟩, text "a", HttpHeader.Set .empty (text "x") (text "1"), none, [7]⟩

theorem Plain.host_eq {scheme host path : Bytes} (h : Plain scheme host path) :
    (((urlText scheme host path).dropWhile (· ≠ 58)).drop 3).takeWhile (· ≠ 47) = host := by
  obtain ⟨first, rest, hScheme, hFirst, hRest⟩ := h.scheme
  have hColon : ∀ c ∈ scheme, decide (c ≠ 58) = true := by
    intro c hc
    rw [decide_eq_true_eq]
    rintro rfl
    rw [hScheme] at hc
    rcases List.mem_cons.mp hc with rfl | hc
    · cases hFirst
    · exact absurd (hRest 58 hc) (by decide)
  have hSlash : ∀ c ∈ host, decide (c ≠ 47) = true := by
    intro c hc
    rw [decide_eq_true_eq]
    rintro rfl
    exact h.host.2 47 hc (by decide)
  have hPath : path.takeWhile (· ≠ 47) = [] := by
    cases path with
    | nil => rfl
    | cons c rest =>
      obtain rfl : c = 47 := h.path c rfl
      rfl
  have hText : text "://" = [58, 47, 47] := by decide
  rw [urlText, hText, List.append_assoc, List.append_assoc, List.dropWhile_append_of_pos hColon]
  change (host ++ path).takeWhile (· ≠ 47) = host
  rw [List.takeWhile_append_of_pos hSlash, hPath, List.append_nil]

theorem plainGo_keepsHosts : KeepsHosts plainGo where
  parse scheme host path u hPlain hParse := by
    unfold plainGo at hParse
    dsimp only at hParse
    split at hParse
    · rename_i hUrl
      cases hParse
      rw [← hPlain.host_eq, hUrl]
      decide
    · cases hParse
  string url u u' _ hParse hParse' := by
    unfold plainGo at hParse hParse'
    dsimp only at hParse hParse'
    split at hParse
    · split at hParse'
      · cases hParse
        cases hParse'
        rfl
      · cases hParse'
    · cases hParse

theorem plainRequest_plain : Plain plainRequest.URL.Scheme plainRequest.Host plainRequest.URL.Path where
  scheme := ⟨104, text "ttp", rfl, rfl, List.all_eq_true.mp (by decide)⟩
  host := by
    refine ⟨by decide, fun c hc => ?_⟩
    obtain rfl : c = 97 := List.mem_singleton.mp hc
    decide
  path c hc := (Option.some.inj hc).symm

theorem request_round_trip_get : ∃ r', UnmarshalBinaryRequest plainGo
      ([0, 3, 71, 69, 84, 4, 104, 116, 116, 112, 1, 97, 2, 47, 98, 4, 1, 120, 1, 49, 1, 7, 0] ++ [9, 9]) = .ok r' ∧
    { r' with Header := .empty } = freshRequest (text "GET") ⟨⟨text "http", text "a", text "/b"⟩, []⟩ [7] ∧
    r'.Host = text "a" ∧ r'.Header.entries.Perm [(text "X", [text "1"])] := by
  have hKeys : HeaderKeys plainRequest.Header := by
    intro k hk
    obtain rfl : k = text "X" := List.mem_singleton.mp hk
    exact ⟨rfl, rfl⟩
  have hMarshal : plainRequest.Marshal plainGo =
      .ok [0, 3, 71, 69, 84, 4, 104, 116, 116, 112, 1, 97, 2, 47, 98, 4, 1, 120, 1, 49, 1, 7, 0] := by rfl
  have hParsed : plainGo.parse (urlText plainRequest.URL.Scheme plainRequest.Host plainRequest.URL.Path) =
      .ok ⟨⟨text "http", text "a", text "/b"⟩, []⟩ := by rfl
  exact (request_round_trip plainGo_keepsHosts (by decide) plainRequest_plain hKeys nofun hMarshal hParsed (by rfl)
    [9, 9]).1 rfl

theorem readResponseTrailers_eq_ok {trailerData front : Bytes} (h : Slice trailerData front) (padding : Bytes) :
    readResponseTrailers (front ++ padding) = .ok trailerData := by
  rw [readResponseTrailers, (readVarintSlice_eq_ok _ trailerData padding).mpr ⟨front, rfl, h⟩]

theorem readResponseTrailers_nil : readResponseTrailers [] = .ok [] := rfl

/-- Up to the trailers, whose section is what `readResponseTrailers` makes of the rest. -/
theorem unmarshalResponse_eq {go : Go} {status : Nat} {a b c d rest headerData content trailerData : Bytes}
    {headerFields trailerFields : List Field} (hFrame : Encodes 1 a) (hStatus : Encodes status b)
    (hRange : 200 ≤ status ∧ status ≤ 599) (hHeaders : Slice headerData c)
    (hHeaderFields : Fields go headerFields headerData)
    (hContent : Slice content d) (hTrailers : readResponseTrailers rest = .ok trailerData)
    (hTrailerFields : Fields go trailerFields trailerData) :
    UnmarshalBinaryResponse go (a ++ (b ++ (c ++ (d ++ rest)))) =
      .ok ⟨status, messageMap headerFields, messageMap trailerFields, .ok content⟩ := by
  simp only [UnmarshalBinaryResponse, bind_eq_ok, Prod.exists, reads_encodes _ _ _, readVarintSlice_eq_ok, require_eq_ok,
    unmarshalFields_eq_ok, pure, Except.pure, Except.ok.injEq]
  exact ⟨1, _, ⟨a, rfl, hFrame⟩, (), by decide, (), by decide, status, _, ⟨b, rfl, hStatus⟩, (), hRange, headerData, _,
    ⟨c, rfl, hHeaders⟩, headerFields, hHeaderFields, content, rest, ⟨d, rfl, hContent⟩, trailerData, hTrailers,
    trailerFields, hTrailerFields, rfl⟩

/-- The status and the body of a response survive whatever its header fields are. -/
theorem response_read_back {go : Go} {r : HttpResponse} {data : Bytes} (hMarshal : r.Marshal go = .ok data) :
    (200 ≤ r.StatusCode ∧ r.StatusCode ≤ 599) ∧ (∃ content, r.Body = .ok content) ∧
      ∃ r', UnmarshalBinaryResponse go data = .ok r' ∧ r'.StatusCode = r.StatusCode ∧ r'.Body = r.Body := by
  obtain ⟨frame, hFrame, h⟩ := bind_eq_ok.mp hMarshal
  obtain ⟨_, hRange, h⟩ := bind_eq_ok.mp h
  obtain ⟨control, hControl, h⟩ := bind_eq_ok.mp h
  obtain ⟨headers, hHeaders, h⟩ := bind_eq_ok.mp h
  obtain ⟨content, hBody, h⟩ := bind_eq_ok.mp h
  obtain ⟨contentFront, hContent, h⟩ := bind_eq_ok.mp h
  obtain ⟨trailers, hTrailers, hData⟩ := bind_eq_ok.mp h
  cases hData
  obtain ⟨headerData, hHeaderData, hHeaderFront⟩ := bind_eq_ok.mp hHeaders
  obtain ⟨trailerData, hTrailerData, hTrailerFront⟩ := bind_eq_ok.mp hTrailers
  have hRange := require_eq_ok.mp hRange
  have hBody := mapError_eq_ok.mp hBody
  have hRead := unmarshalResponse_eq ((write_eq_ok _ _).mp hFrame).1 ((write_eq_ok _ _).mp hControl).1 hRange
    (slice_of_encode hHeaderFront) (fields_of_marshal go hHeaderData) (slice_of_encode hContent)
    (readResponseTrailers_eq_ok (slice_of_encode hTrailerFront) []) (fields_of_marshal go hTrailerData)
  simp only [List.append_nil, ← List.append_assoc] at hRead
  exact ⟨hRange, ⟨content, hBody⟩, _, hRead, rfl, hBody.symm⟩

/-- A written response is read back, under lower-case names, and without its trailers if it breaks off before them. -/
theorem response_round_trip {go : Go} {r : HttpResponse} {data : Bytes} (hHeader : HeaderKeys r.Header)
    (hTrailer : HeaderKeys r.Trailer) (hMarshal : r.Marshal go = .ok data) (padding : Bytes) :
    ∃ r', UnmarshalBinaryResponse go (data ++ padding) = .ok r' ∧ r'.StatusCode = r.StatusCode ∧ r'.Body = r.Body ∧
      r'.Header.entries.Perm (r.Header.entries.map fun e => (go.toLower e.1, [joined e.2])) ∧
      r'.Trailer.entries.Perm (r.Trailer.entries.map fun e => (go.toLower e.1, [joined e.2])) ∧
      ∃ front trailers, data = front ++ trailers ∧ fieldSection go r.Trailer = .ok trailers ∧ trailers ≠ [] ∧
        UnmarshalBinaryResponse go front = .ok { r' with Trailer := .empty } := by
  obtain ⟨frame, hFrame, h⟩ := bind_eq_ok.mp hMarshal
  obtain ⟨_, hRange, h⟩ := bind_eq_ok.mp h
  obtain ⟨control, hControl, h⟩ := bind_eq_ok.mp h
  obtain ⟨headers, hHeaders, h⟩ := bind_eq_ok.mp h
  obtain ⟨content, hBody, h⟩ := bind_eq_ok.mp h
  obtain ⟨contentFront, hContent, h⟩ := bind_eq_ok.mp h
  obtain ⟨trailers, hTrailers, hData⟩ := bind_eq_ok.mp h
  cases hData
  obtain ⟨headerData, hHeaderSlice, hHeaderFields⟩ := fields_of_section hHeader hHeaders
  obtain ⟨trailerData, hTrailerSlice, hTrailerFields⟩ := fields_of_section hTrailer hTrailers
  have hFrame := ((write_eq_ok _ _).mp hFrame).1
  have hControl := ((write_eq_ok _ _).mp hControl).1
  have hRange := require_eq_ok.mp hRange
  have hContent := slice_of_encode hContent
  refine ⟨⟨r.StatusCode, messageMap (createHeaderFields go r.Header), messageMap (createHeaderFields go r.Trailer),
    .ok content⟩, ?_, rfl, (mapError_eq_ok.mp hBody).symm, messageMap_header hHeader, messageMap_header hTrailer,
    frame ++ (control ++ (headers ++ (contentFront ++ []))), trailers, by simp, hTrailers, hTrailerSlice.ne_nil, ?_⟩
  · have hRead := unmarshalResponse_eq hFrame hControl hRange hHeaderSlice hHeaderFields hContent
      (readResponseTrailers_eq_ok hTrailerSlice padding) hTrailerFields
    simpa using hRead
  · exact unmarshalResponse_eq hFrame hControl hRange hHeaderSlice hHeaderFields hContent readResponseTrailers_nil
      (fields_nil.mpr rfl)

/-- A response is not written if its status or its body does not allow it; no other error is returned. -/
theorem marshalResponse_raises (go : Go) (r : HttpResponse) : Raises (r.Marshal go) fun e => e = .panicked ∨
    Returned e ∧ ¬((200 ≤ r.StatusCode ∧ r.StatusCode ≤ 599) ∧ ∃ content, r.Body = .ok content) := by
  have hSlice : ∀ data, Raises (encodeVarintSlice data) (· = .panicked) := by
    intro data
    apply (write_raises data.length).bind
    intro _ _
    exact raises_ok
  have hSection : ∀ h, Raises (fieldSection go h) (· = .panicked) := by
    intro h
    apply Raises.bind
    · apply Raises.bind
      · apply mapAll_raises
        intro f _
        apply (hSlice f.name).bind
        intro _ _
        apply (hSlice f.value).bind
        intro _ _
        exact raises_ok
      · intro _ _
        exact raises_ok
    · intro data _
      exact hSlice data
  apply ((write_raises 1).mono fun _ => Or.inl).bind
  intro _ _
  by_cases hRange : 200 ≤ r.StatusCode ∧ r.StatusCode ≤ 599
  · rw [require_bind hRange]
    apply ((write_raises r.StatusCode).mono fun _ => Or.inl).bind
    intro _ _
    apply ((hSection r.Header).mono fun _ => Or.inl).bind
    intro _ _
    cases hBody : r.Body with
    | error message =>
      rintro _ ⟨⟩
      refine .inr ⟨⟨by simp, by simp⟩, ?_⟩
      rintro ⟨-, content, hContent⟩
      cases hContent
    | ok body =>
      apply ((hSlice body).mono fun _ => Or.inl).bind
      intro _ _
      apply ((hSection r.Trailer).mono fun _ => Or.inl).bind
      intro _ _
      exact raises_ok
  · rw [require, if_neg hRange]
    rintro _ ⟨⟩
    exact .inr ⟨⟨by simp, by simp⟩, fun h => hRange h.1⟩

def plainResponse : HttpResponse := ⟨204, HttpHeader.Set .empty (text "x") (text "1"), .empty, .ok [7]⟩

theorem response_round_trip_204 :
    ∃ r', UnmarshalBinaryResponse plainGo ([1, 64, 204, 4, 1, 120, 1, 49, 1, 7, 0] ++ [9]) = .ok r' ∧
      r'.StatusCode = 204 ∧ r'.Body = .ok [7] ∧ r'.Header.entries.Perm [(text "x", [text "1"])] ∧
      r'.Trailer.entries.Perm [] ∧ ∃ front trailers, [1, 64, 204, 4, 1, 120, 1, 49, 1, 7, 0] = front ++ trailers ∧
        fieldSection plainGo .empty = .ok trailers ∧ trailers ≠ [] ∧
        UnmarshalBinaryResponse plainGo front = .ok { r' with Trailer := .empty } := by
  have hKeys : HeaderKeys plainResponse.Header := by
    intro k hk
    obtain rfl : k = text "X" := List.mem_singleton.mp hk
    exact ⟨rfl, rfl⟩
  have hMarshal : plainResponse.Marshal plainGo = .ok [1, 64, 204, 4, 1, 120, 1, 49, 1, 7, 0] := by rfl
  exact response_round_trip hKeys nofun hMarshal [9]

end Columbia.Gateway.Bhttp
