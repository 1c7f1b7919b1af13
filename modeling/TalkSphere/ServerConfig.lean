import TalkSphere.Contacts
import TalkSphere.Driver

/-! The policy of a server, checked before it takes anything from its surroundings. -/

namespace TalkSphere.Server

inductive Failure
  | unsupported
  | identity
  | network
  | runtime
  | shutdownTimeout
  deriving DecidableEq, Repr

structure Options where
  identityStore : String
  listen : SocketAddr
  contacts : List Contacts.Contact
  maximumContacts : Nat
  transport : TransportConfig
  shutdownTimeout : Duration

inductive ConfigError
  | missingIdentityStore
  | zeroShutdownTimeout
  | contactLimit
  | deadlineRange
  | invalidContact
  | duplicateContact
  deriving DecidableEq, Repr

def second : Duration := 10 ^ 9

def localLimits : ResourceLimits where
  connections := 64
  streamsPerConnection := 128
  outboundBytes := 64 * maxFrameBytes
  bufferedBytesPerStream := maxPayloadBytes

def Options.local_ (identityStore : String) : Except TalkSphere.ConfigError Options := do
  let transport ← TransportConfig.new localLimits (10 * second)
  .ok {
    identityStore
    listen := ⟨[127, 0, 0, 1], 0⟩
    contacts := []
    maximumContacts := 64
    transport
    shutdownTimeout := 5 * second }

/-- The loop over the contacts, with the identities it has inserted. -/
def checkContacts : List IdentityId → List Contacts.Contact → Except ConfigError Unit
  | _, [] => .ok ()
  | ids, entry :: rest =>
    if entry.endpoint.isNone ∨ (Contacts.format entry).isOk = false then .error .invalidContact
    else if entry.expectedId ∈ ids then .error .duplicateContact
    else checkContacts (entry.expectedId :: ids) rest

/-- What a contact must have to be tried at the start. -/
def Reachable (entry : Contacts.Contact) : Prop :=
  ∃ endpoint, entry.endpoint = some endpoint ∧ endpoint.port ≠ 0 ∧ endpoint.zoned = false

theorem reachable_of_format {entry : Contacts.Contact} (hsome : entry.endpoint.isNone = false)
    (h : (Contacts.format entry).isOk = true) : Reachable entry := by
  cases hformat : Contacts.format entry with
  | error e => simp [hformat, Except.isOk, Except.toBool] at h
  | ok text =>
    obtain ⟨-, -, ⟨hnone, -⟩ | ⟨endpoint, he, hport, hzone, -⟩⟩ := Contacts.format_ok hformat
    · simp [hnone] at hsome
    · exact ⟨endpoint, he, hport, hzone⟩

theorem checkContacts_ok {ids : List IdentityId} {contacts : List Contacts.Contact}
    (h : checkContacts ids contacts = .ok ()) :
    (∀ entry ∈ contacts, Reachable entry ∧ entry.expectedId ∉ ids) ∧
      (contacts.map Contacts.Contact.expectedId).Nodup := by
  induction contacts generalizing ids with
  | nil => exact ⟨fun entry he => absurd he List.not_mem_nil, .nil⟩
  | cons entry rest ih =>
    rw [checkContacts] at h
    split_ifs at h with hvalid hmem
    obtain ⟨hsome, hformat⟩ := not_or.mp hvalid
    obtain ⟨hrest, hnodup⟩ := ih h
    constructor
    · intro e he
      rcases List.mem_cons.mp he with rfl | he
      · exact ⟨reachable_of_format (Bool.eq_false_of_not_eq_true hsome)
          (Bool.eq_true_of_not_eq_false hformat), hmem⟩
      · exact ⟨(hrest e he).1, fun hin => (hrest e he).2 (List.mem_cons_of_mem _ hin)⟩
    · rw [List.map_cons, List.nodup_cons]
      refine ⟨fun hin => ?_, hnodup⟩
      obtain ⟨e, he, heq⟩ := List.mem_map.mp hin
      exact (hrest e he).2 (heq ▸ List.mem_cons_self)

/-- A checked policy. -/
structure Config where
  options : Options
  stored : options.identityStore ≠ ""
  patient : 0 < options.shutdownTimeout
  bounded : options.contacts.length ≤ options.maximumContacts
  reachable : ∀ entry ∈ options.contacts, Reachable entry
  distinct : (options.contacts.map Contacts.Contact.expectedId).Nodup

/-- `now` is the present instant, from which both deadlines must be representable. -/
def Config.new (now : Instant) (options : Options) : Except ConfigError Config :=
  if hstored : options.identityStore = "" then .error .missingIdentityStore
  else if hpatient : options.shutdownTimeout = 0 then .error .zeroShutdownTimeout
  else if (now.checkedAdd options.shutdownTimeout).isNone ∨
      (now.checkedAdd options.transport.handshakeTimeout).isNone then .error .deadlineRange
  else if hbounded : options.maximumContacts = 0 ∨
      options.maximumContacts < options.contacts.length then .error .contactLimit
  else match hcontacts : checkContacts [] options.contacts with
    | .error e => .error e
    | .ok () => .ok {
        options
        stored := hstored
        patient := Nat.pos_of_ne_zero hpatient
        bounded := Nat.le_of_not_lt (not_or.mp hbounded).2
        reachable := fun entry he => ((checkContacts_ok hcontacts).1 entry he).1
        distinct := (checkContacts_ok hcontacts).2 }

end TalkSphere.Server
