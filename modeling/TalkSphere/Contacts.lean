import TalkSphere.Header
import TalkSphere.IdentityText
import TalkSphere.Separated

/-! Contact texts: an expected identity, and perhaps an address and a port to try first. -/

namespace TalkSphere.Contacts

open Outcome (bind_ok)
open Separated (splitOnce splitOnce_append splitOnce_none)

inductive Error
  | invalidInput
  | unsupported
  | identityMismatch
  | invalidProof
  | accessDenied
  | unavailable
  | resourceLimit
  | conflict
  | outcomeUnknown
  deriving DecidableEq, Repr

/-- A refusal of the source, or an index or shift out of range in the identity text. -/
inductive Stop
  | refused (error : Error)
  | outOfRange
  deriving DecidableEq, Repr

def refuse {α : Type} (error : Error) : Except Stop α := .error (.refused error)

def need {α : Type} (error : Error) : Option α → Except Stop α
  | some a => .ok a
  | none => refuse error

def ofText {α : Type} : Except IdentityText.Stop α → Except Stop α
  | .ok a => .ok a
  | .error .invalidInput => refuse .invalidInput
  | .error .outOfRange => .error .outOfRange

/-! Addresses and their standard display. -/

inductive IpAddr
  | v4 (octets : Vector UInt8 4)
  | v6 (segments : Vector UInt16 8)
  deriving DecidableEq, Repr

inductive SocketAddr
  | v4 (octets : Vector UInt8 4) (port : UInt16)
  | v6 (segments : Vector UInt16 8) (port : UInt16) (flowinfo scopeId : UInt32)
  deriving DecidableEq, Repr

namespace SocketAddr

def new (ip : IpAddr) (port : UInt16) : SocketAddr :=
  match ip with
  | .v4 octets => .v4 octets port
  | .v6 segments => .v6 segments port 0 0

def ip : SocketAddr → IpAddr
  | .v4 octets _ => .v4 octets
  | .v6 segments _ _ _ => .v6 segments

def port : SocketAddr → UInt16
  | .v4 _ port => port
  | .v6 _ port _ _ => port

/-- An IPv6 endpoint with a zone or a flow label, which a contact text cannot carry. -/
def zoned : SocketAddr → Bool
  | .v4 _ _ => false
  | .v6 _ _ flowinfo scopeId => scopeId != 0 || flowinfo != 0

end SocketAddr

def decimal (n : Nat) : List Char := Nat.toDigits 10 n

def displayV4 (octets : List UInt8) : List Char :=
  ['.'].intercalate (octets.map fun o => decimal o.toNat)

/-- The embedded IPv4 address of `::ffff:a.b.c.d`. -/
def toIpv4Mapped (segments : List UInt16) : Option (List UInt8) :=
  match segments with
  | [0, 0, 0, 0, 0, 0xffff, high, low] =>
    some [(high >>> 8).toUInt8, high.toUInt8, (low >>> 8).toUInt8, low.toUInt8]
  | _ => none

structure Span where
  start : Nat := 0
  len : Nat := 0

/-- The loop that looks for the longest run of zero segments, the first of several. -/
def Span.step (spans : Span × Span) (segment : UInt16 × Nat) : Span × Span :=
  let (longest, current) := spans
  if segment.1 = 0 then
    let current : Span :=
      { start := if current.len = 0 then segment.2 else current.start, len := current.len + 1 }
    (if current.len > longest.len then current else longest, current)
  else (longest, {})

def zeroes (segments : List UInt16) : Span :=
  (segments.zipIdx.foldl Span.step ({}, {})).1

def displaySegments (segments : List UInt16) : List Char :=
  [':'].intercalate (segments.map fun s => Nat.toDigits 16 s.toNat)

def displayV6 (segments : List UInt16) : List Char :=
  match toIpv4Mapped segments with
  | some octets => [':', ':', 'f', 'f', 'f', 'f', ':'] ++ displayV4 octets
  | none =>
    let span := zeroes segments
    if span.len > 1 then
      displaySegments (segments.take span.start) ++ [':', ':'] ++
        displaySegments (segments.drop (span.start + span.len))
    else displaySegments segments

def IpAddr.display : IpAddr → List Char
  | .v4 octets => displayV4 octets.toList
  | .v6 segments => displayV6 segments.toList

/-! The codec. Reading an address back is the standard library's, a parameter here. -/

structure Contact where
  expectedId : IdentityId
  endpoint : Option SocketAddr
  deriving DecidableEq, Repr

def addressName : List Char := ['a', 'd', 'd', 'r', 'e', 's', 's']
def portName : List Char := ['p', 'o', 'r', 't']

def escapeColon (c : Char) : List Char := if c = ':' then ['%', '3', 'A'] else [c]

def escape (text : List Char) : List Char := text.flatMap escapeColon

def query (endpoint : SocketAddr) : List Char :=
  addressName ++ '=' :: escape endpoint.ip.display ++ '&' ::
    (portName ++ '=' :: decimal endpoint.port.toNat)

def format (contact : Contact) : Except Stop (List Char) := do
  let output ← ofText (IdentityText.format contact.expectedId)
  match contact.endpoint with
  | none => .ok output.toList
  | some endpoint =>
    if endpoint.port = 0 then refuse .invalidInput
    else if endpoint.zoned then refuse .invalidInput
    else .ok (output.toList ++ '?' :: query endpoint)

def hexDigit (byte : UInt8) : Option UInt8 :=
  if 0x30 ≤ byte ∧ byte ≤ 0x39 then some (byte - 0x30)
  else if 0x61 ≤ byte ∧ byte ≤ 0x66 then some (byte - 0x61 + 10)
  else if 0x41 ≤ byte ∧ byte ≤ 0x46 then some (byte - 0x41 + 10)
  else none

/-- ASCII letters and digits, and `-._~`. -/
def unreserved (byte : UInt8) : Bool :=
  (0x30 ≤ byte && byte ≤ 0x39) || (0x41 ≤ byte && byte ≤ 0x5A) || (0x61 ≤ byte && byte ≤ 0x7A) ||
    [0x2D, 0x2E, 0x5F, 0x7E].contains byte

/-- The loop over the bytes of an address. -/
def unescape : List UInt8 → Option (List UInt8)
  | [] => some []
  | byte :: rest =>
    if byte = 0x25 then
      match rest with
      | high :: low :: rest => do
        let high ← hexDigit high
        let low ← hexDigit low
        (unescape rest).map (((high <<< 4) ||| low) :: ·)
      | _ => none
    else if unreserved byte then (unescape rest).map (byte :: ·)
    else none

structure Fields where
  address : Option IpAddr := none
  port : Option UInt16 := none

def parsePort (value : List Char) : Except Stop UInt16 :=
  if value = [] ∨ value.head? = some '0' ∨ ¬ value.all Char.isDigit then refuse .invalidInput
  else if Nat.ofDigitChars 10 value 0 < 2 ^ 16 then .ok (Nat.ofDigitChars 10 value 0).toUInt16
  else refuse .invalidInput

section

variable (fromStr : List Char → Option IpAddr)

def decodeAddress (input : List Char) : Except Stop IpAddr := do
  let decoded ← need .invalidInput (unescape (Json.utf8 input))
  let text ← need .invalidInput ((String.fromUTF8? ⟨decoded.toArray⟩).map String.toList)
  need .invalidInput (fromStr text)

def Fields.read (fields : Fields) (field : List Char) : Except Stop Fields := do
  let (name, value) ← need .invalidInput (splitOnce '=' field)
  if name = addressName ∧ fields.address = none then
    let address ← decodeAddress fromStr value
    .ok { fields with address := some address }
  else if name = portName ∧ fields.port = none then
    let port ← parsePort value
    .ok { fields with port := some port }
  else refuse .invalidInput

def parseEndpoint (query : List Char) : Except Stop SocketAddr := do
  let fields ← (query.splitOn '&').foldlM (Fields.read fromStr) {}
  let address ← need .invalidInput fields.address
  let port ← need .invalidInput fields.port
  .ok (.new address port)

/-- The number of bytes of a text. -/
def size (text : List Char) : Nat := (Json.utf8 text).length

def parse (input : List Char) (maximumBytes : Nat) : Except Stop Contact :=
  if size input > maximumBytes then refuse .resourceLimit
  else if '#' ∈ input then refuse .invalidInput
  else match splitOnce '?' input with
    | none => do
      let expectedId ← ofText (IdentityText.parse (String.ofList input))
      .ok { expectedId, endpoint := none }
    | some (id, query) => do
      let expectedId ← ofText (IdentityText.parse (String.ofList id))
      let endpoint ← parseEndpoint fromStr query
      .ok { expectedId, endpoint := some endpoint }

end

theorem ofText_ok {α : Type} {x : Except IdentityText.Stop α} {a : α} :
    ofText x = .ok a ↔ x = .ok a := by
  rcases x with (_ | _) | _ <;> simp [ofText, refuse]

theorem need_ok {α : Type} {error : Error} {x : Option α} {a : α} :
    need error x = .ok a ↔ x = some a := by
  cases x <;> simp [need, refuse]

/-! The characters of an address. -/

def addressChars : List Char :=
  ['0', '1', '2', '3', '4', '5', '6', '7', '8', '9', 'a', 'b', 'c', 'd', 'e', 'f', '.', ':']

theorem mem_toDigits {b n : Nat} (hb : 1 < b) {c : Char} (h : c ∈ Nat.toDigits b n) :
    ∃ d < b, c = Nat.digitChar d := by
  induction n using Nat.strongRecOn with
  | ind n ih =>
    rw [Nat.toDigits_eq_if hb] at h
    by_cases hn : n < b
    · rw [if_pos hn, List.mem_singleton] at h
      exact ⟨n, hn, h⟩
    · rw [if_neg hn, List.mem_append, List.mem_singleton] at h
      rcases h with h | h
      · exact ih (n / b) (Nat.div_lt_self (by omega) hb) h
      · exact ⟨n % b, Nat.mod_lt n (by omega), h⟩

theorem digit_addressChars {b n : Nat} (hb : 1 < b) (hsmall : b ≤ 16) {c : Char}
    (h : c ∈ Nat.toDigits b n) : c ∈ addressChars := by
  have hall : ∀ d < 16, Nat.digitChar d ∈ addressChars := by decide
  obtain ⟨d, hd, rfl⟩ := mem_toDigits hb h
  exact hall d (by omega)

theorem displayV4_addressChars {octets : List UInt8} {c : Char} (h : c ∈ displayV4 octets) :
    c ∈ addressChars := by
  rcases Separated.mem_intercalate h with rfl | ⟨part, hpart, hc⟩
  · decide
  · obtain ⟨o, -, rfl⟩ := List.mem_map.mp hpart
    exact digit_addressChars (by decide) (by decide) hc

theorem displaySegments_addressChars {segments : List UInt16} {c : Char}
    (h : c ∈ displaySegments segments) : c ∈ addressChars := by
  rcases Separated.mem_intercalate h with rfl | ⟨part, hpart, hc⟩
  · decide
  · obtain ⟨s, -, rfl⟩ := List.mem_map.mp hpart
    exact digit_addressChars (by decide) (by decide) hc

theorem displayV6_addressChars {segments : List UInt16} {c : Char} (h : c ∈ displayV6 segments) :
    c ∈ addressChars := by
  have hmapped : ∀ c ∈ [':', ':', 'f', 'f', 'f', 'f', ':'], c ∈ addressChars := by
    simp [addressChars]
  have hgap : ∀ c ∈ [':', ':'], c ∈ addressChars := by simp [addressChars]
  rw [displayV6] at h
  split at h
  · rcases List.mem_append.mp h with h | h
    · exact hmapped c h
    · exact displayV4_addressChars h
  · dsimp only at h
    split at h
    · simp only [List.mem_append] at h
      rcases h with (h | h) | h
      · exact displaySegments_addressChars h
      · exact hgap c h
      · exact displaySegments_addressChars h
    · exact displaySegments_addressChars h

theorem display_addressChars {ip : IpAddr} {c : Char} (h : c ∈ ip.display) : c ∈ addressChars := by
  cases ip with
  | v4 octets => exact displayV4_addressChars h
  | v6 segments => exact displayV6_addressChars h

theorem escape_ne {text : List Char} (h : ∀ c ∈ text, c ∈ addressChars) {c : Char}
    (hc : c ∈ escape text) : c ∈ '%' :: 'A' :: addressChars := by
  obtain ⟨d, hd, hcd⟩ := List.mem_flatMap.mp hc
  have hall : addressChars.all (fun d =>
      (escapeColon d).all ('%' :: 'A' :: addressChars).contains) = true := by decide +kernel
  exact List.contains_iff_mem.mp (List.all_eq_true.mp (List.all_eq_true.mp hall d (h d hd)) c hcd)

/-! Decoding undoes escaping. -/

theorem unescape_char {c : Char} (h : c ∈ addressChars) (rest : List UInt8) :
    unescape (Json.utf8 (escapeColon c) ++ rest) = (unescape rest).map (Json.utf8 [c] ++ ·) := by
  by_cases hcolon : c = ':'
  · subst hcolon
    rfl
  · have hall : addressChars.all (fun c => c == ':' || ((Json.utf8 [c]).length == 1 &&
        (Json.utf8 [c]).all fun b => b != 0x25 && unreserved b)) = true := by decide +kernel
    have hc := List.all_eq_true.mp hall c h
    rw [beq_false_of_ne hcolon, Bool.false_or] at hc
    obtain ⟨b, hb, hne, hun⟩ : ∃ b, Json.utf8 [c] = [b] ∧ b ≠ 0x25 ∧ unreserved b = true := by
      obtain ⟨hlength, hbytes⟩ := Bool.and_eq_true_iff.mp hc
      obtain ⟨b, hb⟩ := List.length_eq_one_iff.mp (beq_iff_eq.mp hlength)
      obtain ⟨hne, hun⟩ := Bool.and_eq_true_iff.mp
        (List.all_eq_true.mp hbytes b (hb ▸ List.mem_singleton_self b))
      exact ⟨b, hb, bne_iff_ne.mp hne, hun⟩
    rw [escapeColon, if_neg hcolon, hb]
    simp only [List.cons_append, List.nil_append]
    rw [unescape.eq_def]
    dsimp only
    rw [if_neg hne, if_pos hun]

theorem unescape_escape {text : List Char} (h : ∀ c ∈ text, c ∈ addressChars) :
    unescape (Json.utf8 (escape text)) = some (Json.utf8 text) := by
  induction text with
  | nil => rfl
  | cons c text ih =>
    obtain ⟨hc, htext⟩ := List.forall_mem_cons.mp h
    rw [escape, List.flatMap_cons, Json.utf8_append, unescape_char hc, ← escape, ih htext,
      Option.map_some, ← Json.utf8_append]
    rfl

variable {fromStr : List Char → Option IpAddr}

theorem decodeAddress_escape {ip : IpAddr} (h : fromStr ip.display = some ip) :
    decodeAddress fromStr (escape ip.display) = .ok ip := by
  refine bind_ok.mpr ⟨_, need_ok.mpr (unescape_escape fun c hc => display_addressChars hc), ?_⟩
  exact bind_ok.mpr ⟨_, need_ok.mpr (Json.fromUTF8_iff.mpr rfl), need_ok.mpr h⟩

theorem decimal_head {n : Nat} (h : n ≠ 0) : (decimal n).head? ≠ some '0' := by
  induction n using Nat.strongRecOn with
  | ind n ih =>
    rw [decimal, Nat.toDigits_eq_if (by decide)]
    by_cases hn : n < 10
    · have hall : ∀ d < 10, d ≠ 0 → Nat.digitChar d ≠ '0' := by decide
      rw [if_pos hn]
      simpa using hall n hn h
    · rw [if_neg hn, List.head?_append_of_ne_nil _ Nat.toDigits_ne_nil]
      exact ih (n / 10) (by omega) (by omega)

theorem parsePort_decimal {port : UInt16} (h : port ≠ 0) :
    parsePort (decimal port.toNat) = .ok port := by
  have hne : port.toNat ≠ 0 := fun h0 => h (UInt16.toNat_inj.mp h0)
  have hdigits : (decimal port.toNat).all Char.isDigit = true :=
    List.all_eq_true.mpr fun c hc => Nat.isDigit_of_mem_toDigits (by decide) (by decide) hc
  have hvalue : Nat.ofDigitChars 10 (decimal port.toNat) 0 = port.toNat :=
    Nat.ofDigitChars_ten_toDigits
  rw [parsePort, if_neg, hvalue, if_pos port.toNat_lt]
  · simp
  · rintro (hnil | hzero | hdigit)
    · exact Nat.toDigits_ne_nil hnil
    · exact decimal_head hne hzero
    · exact hdigit hdigits

/-! Parsing undoes formatting. -/

theorem not_mem_field {name value : List Char} {c : Char} (hname : c ∉ name) (hc : c ≠ '=')
    (hvalue : c ∉ value) : c ∉ name ++ '=' :: value := by
  simp [hname, hc, hvalue]

theorem not_mem_escape {ip : IpAddr} {c : Char} (h : c ∉ '%' :: 'A' :: addressChars) :
    c ∉ escape ip.display :=
  fun hc => h (escape_ne (fun _ => display_addressChars) hc)

theorem not_mem_decimal {n : Nat} {c : Char} (h : c ∉ addressChars) : c ∉ decimal n :=
  fun hc => h (digit_addressChars (by decide) (by decide) hc)

theorem not_mem_query {endpoint : SocketAddr} {c : Char}
    (h : c ∉ '%' :: 'A' :: '=' :: '&' :: (addressName ++ portName ++ addressChars)) :
    c ∉ query endpoint := by
  simp only [List.mem_cons, List.mem_append, not_or] at h
  obtain ⟨hpercent, hA, heq, hand, ⟨haddress, hport⟩, hchars⟩ := h
  have hleft : c ∉ addressName ++ '=' :: escape endpoint.ip.display :=
    not_mem_field haddress heq (not_mem_escape (by simp [hpercent, hA, hchars]))
  have hright : c ∉ portName ++ '=' :: decimal endpoint.port.toNat :=
    not_mem_field hport heq (not_mem_decimal hchars)
  rw [query, List.mem_append, List.mem_cons]
  rintro (hc | hc | hc)
  · exact hleft hc
  · exact hand hc
  · exact hright hc

theorem read_address {ip : IpAddr} (h : fromStr ip.display = some ip) :
    Fields.read fromStr {} (addressName ++ '=' :: escape ip.display) = .ok { address := some ip } := by
  have hsplit := splitOnce_append (show '=' ∉ addressName by decide) (escape ip.display)
  refine bind_ok.mpr ⟨_, need_ok.mpr hsplit, ?_⟩
  dsimp only
  rw [if_pos ⟨rfl, rfl⟩]
  exact bind_ok.mpr ⟨ip, decodeAddress_escape h, rfl⟩

theorem read_port {ip : IpAddr} {port : UInt16} (h : port ≠ 0) :
    Fields.read fromStr { address := some ip } (portName ++ '=' :: decimal port.toNat) =
      .ok { address := some ip, port := some port } := by
  have hsplit := splitOnce_append (show '=' ∉ portName by decide) (decimal port.toNat)
  refine bind_ok.mpr ⟨_, need_ok.mpr hsplit, ?_⟩
  dsimp only
  rw [if_neg (fun hn => absurd hn.1 (by decide)), if_pos ⟨rfl, rfl⟩]
  exact bind_ok.mpr ⟨port, parsePort_decimal h, rfl⟩

theorem new_ip_port {endpoint : SocketAddr} (h : endpoint.zoned = false) :
    SocketAddr.new endpoint.ip endpoint.port = endpoint := by
  cases endpoint with
  | v4 octets port => rfl
  | v6 segments port flowinfo scopeId =>
    obtain ⟨hscope, hflow⟩ : scopeId = 0 ∧ flowinfo = 0 := by simpa [SocketAddr.zoned] using h
    rw [hscope, hflow]
    rfl

theorem parseEndpoint_query {endpoint : SocketAddr} (hport : endpoint.port ≠ 0)
    (hzone : endpoint.zoned = false) (h : fromStr endpoint.ip.display = some endpoint.ip) :
    parseEndpoint fromStr (query endpoint) = .ok endpoint := by
  have haddress : '&' ∉ addressName ++ '=' :: escape endpoint.ip.display :=
    not_mem_field (by decide) (by decide) (not_mem_escape (by decide))
  have hrest : '&' ∉ portName ++ '=' :: decimal endpoint.port.toNat :=
    not_mem_field (by decide) (by decide) (not_mem_decimal (by decide))
  have hsplit : (query endpoint).splitOn '&' =
      [addressName ++ '=' :: escape endpoint.ip.display,
        portName ++ '=' :: decimal endpoint.port.toNat] := by
    rw [query, List.splitOn_append_cons_self_of_not_mem haddress, List.splitOn_eq_singleton hrest]
  refine bind_ok.mpr ⟨{ address := some endpoint.ip, port := some endpoint.port }, ?_, ?_⟩
  · rw [hsplit]
    refine bind_ok.mpr ⟨_, read_address h, bind_ok.mpr ⟨_, read_port hport, rfl⟩⟩
  · exact congrArg Except.ok (new_ip_port hzone)

theorem not_mem_idText {id : IdentityId} {canonical : String} {c : Char}
    (h : IdentityText.format id = .ok canonical)
    (hc : c ∉ "cr2se:".toList ++ IdentityText.alphabet) : c ∉ canonical.toList := by
  obtain ⟨output, digits, hw⟩ := IdentityText.written h
  rw [List.mem_append, not_or] at hc
  rw [hw.text, String.toList_append, String.toList_ofList (l := output), List.mem_append, not_or]
  refine ⟨hc.1, fun hout => hc.2 ?_⟩
  exact hw.shows.mem_alphabet hout

/-- The contact's address is one that the standard reader reads back from its display. -/
def ReadsBack (fromStr : List Char → Option IpAddr) (contact : Contact) : Prop :=
  ∀ endpoint, contact.endpoint = some endpoint → fromStr endpoint.ip.display = some endpoint.ip

theorem format_ok {contact : Contact} {text : List Char} (h : format contact = .ok text) :
    ∃ canonical, IdentityText.format contact.expectedId = .ok canonical ∧
      ((contact.endpoint = none ∧ text = canonical.toList) ∨
        ∃ endpoint, contact.endpoint = some endpoint ∧ endpoint.port ≠ 0 ∧
          endpoint.zoned = false ∧ text = canonical.toList ++ '?' :: query endpoint) := by
  obtain ⟨canonical, hid, h⟩ := bind_ok.mp h
  refine ⟨canonical, ofText_ok.mp hid, ?_⟩
  split at h
  case h_1 hnone => exact .inl ⟨hnone, (Except.ok.inj h).symm⟩
  case h_2 endpoint hsome =>
    split_ifs at h with hport hzone
    · cases h
    · cases h
    · exact .inr ⟨endpoint, hsome, hport, by simpa using hzone, (Except.ok.inj h).symm⟩

theorem not_mem_format {contact : Contact} {text : List Char} (h : format contact = .ok text)
    {c : Char} (hid : c ∉ "cr2se:".toList ++ IdentityText.alphabet) (hc : c ≠ '?')
    (hquery : c ∉ '%' :: 'A' :: '=' :: '&' :: (addressName ++ portName ++ addressChars)) :
    c ∉ text := by
  obtain ⟨canonical, hcanonical, ⟨-, rfl⟩ | ⟨endpoint, -, -, -, rfl⟩⟩ := format_ok h
  · exact not_mem_idText hcanonical hid
  · rw [List.mem_append, List.mem_cons]
    rintro (hmem | hmem | hmem)
    · exact not_mem_idText hcanonical hid hmem
    · exact hc hmem
    · exact not_mem_query hquery hmem

theorem parse_format {contact : Contact} {text : List Char} (h : format contact = .ok text)
    (hback : ReadsBack fromStr contact) {maximumBytes : Nat} (hsize : size text ≤ maximumBytes) :
    parse fromStr text maximumBytes = .ok contact := by
  have hhash : '#' ∉ text := not_mem_format h (by decide +kernel) (by decide) (by decide)
  rw [parse, if_neg hsize.not_gt, if_neg hhash]
  obtain ⟨id, endpoint⟩ := contact
  obtain ⟨canonical, hcanonical, hcase⟩ := format_ok h
  have hmark : '?' ∉ canonical.toList := not_mem_idText hcanonical (by decide +kernel)
  have hid : ofText (IdentityText.parse (String.ofList canonical.toList)) = .ok id := by
    rw [String.ofList_toList]
    exact ofText_ok.mpr (IdentityText.parse_format hcanonical)
  rcases hcase with ⟨rfl, rfl⟩ | ⟨e, rfl, hport, hzone, rfl⟩
  · rw [splitOnce_none hmark]
    exact bind_ok.mpr ⟨_, hid, rfl⟩
  · rw [splitOnce_append hmark]
    have hendpoint := parseEndpoint_query hport hzone (hback e rfl)
    exact bind_ok.mpr ⟨_, hid, bind_ok.mpr ⟨_, hendpoint, rfl⟩⟩

end TalkSphere.Contacts
