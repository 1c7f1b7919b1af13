import TalkSphere.Anchoring
import TalkSphere.ContactSnapshots
import TalkSphere.Envelope

/-! The durable store of an identity: its credentials, which are installed once, and its
contacts, which may be replaced. Every system call may fail or be the last one, and the power
may be lost between any two operations. -/

namespace TalkSphere.IdentityStore

open Durable
open Contacts (Capability Contact FileStore IpAddr Stop format header ordered refuse)
open Envelope (CryptoError RecipientCredential)
open Outcome (bind_ok)

inductive Name
  | identity
  | contacts
  | identityPending
  | contactsPending
  deriving DecidableEq, Repr

/-! Credentials. -/

def magic : List UInt8 := [0x54, 0x53, 0x49, 0x44, 0x30, 0x30, 0x30, 0x31]

def recordBytes : Nat := 232

structure CredentialRecord where
  bytes : List UInt8
  length_eq : bytes.length = recordBytes
  magic_eq : bytes.take 8 = magic
  deriving DecidableEq, Repr

def ofCrypto {α : Type} : Except CryptoError α → Except Stop α
  | .ok a => .ok a
  | .error .invalidInput => refuse .invalidInput
  | .error .authenticationFailed => refuse .invalidProof
  | .error .accessDenied => refuse .accessDenied
  | .error .unavailable => refuse .unavailable
  | .error .resourceLimit => refuse .resourceLimit

structure IdentityKeys where
  signing : Bytes32
  encryption : Bytes32

namespace CredentialRecord

def fromProtectedBytes (bytes : List UInt8) (limits : Contacts.Limits) :
    Except Stop CredentialRecord :=
  if bytes.length > limits.recordBytes.toNat then refuse .resourceLimit
  else if hlength : bytes.length ≠ recordBytes then refuse .invalidInput
  else if hmagic : bytes.take 8 ≠ magic then refuse .unsupported
  else .ok ⟨bytes, not_not.mp hlength, not_not.mp hmagic⟩

/-- The keys must derive every public field of the record. -/
def decode (credential : IdentityKeys → Except CryptoError RecipientCredential)
    (record : CredentialRecord) : Except Stop IdentityKeys := do
  let keys := ⟨bytesAt record.bytes 8 32, bytesAt record.bytes 40 32⟩
  let derived ← ofCrypto (credential keys)
  if bytesAt record.bytes 72 32 ≠ derived.identityId ∨
      bytesAt record.bytes 104 32 ≠ derived.signingPublicKey ∨
      bytesAt record.bytes 136 32 ≠ derived.encryptionPublicKey ∨
      bytesAt record.bytes 168 64 ≠ derived.bindingSignature then refuse .identityMismatch
  else .ok keys

end CredentialRecord

/-! Operations. -/

def outcomeUnknown : Stop := .refused .outcomeUnknown

def unavailable : Stop := .refused .unavailable

def ioError : Errno → Stop
  | .access => .refused .accessDenied
  | _ => unavailable

def pathErrors : PathErrors Stop where
  empty := .refused .invalidInput
  unsupported := .refused .invalidInput
  opening := ioError
  making := ioError
  syncing := unavailable

def stagingErrors : ClearErrors Stop where
  opening := ioError
  check := ioError
  removing := ioError
  syncing := unavailable

theorem ioError_ne (x : Errno) : ioError x ≠ outcomeUnknown := by
  cases x <;> decide

def recordErrors : Errors Stop where
  create := ioError
  check := ioError
  write := unavailable
  sync := unavailable
  rename x := if x = .exists then .refused .conflict else ioError x
  directory := outcomeUnknown
  before := by
    rintro e (⟨x, rfl⟩ | ⟨x, rfl⟩ | rfl | rfl | ⟨x, rfl⟩)
    · exact ioError_ne x
    · exact ioError_ne x
    · decide
    · decide
    · split_ifs
      · decide
      · exact ioError_ne x

def cleanupStaging : Prog Name Stop Unit := do
  clear .identityPending stagingErrors
  clear .contactsPending stagingErrors

/-- The directory, the lock and what is left of interrupted writes. -/
def openStore (path : List Component) (held : Bool) : Prog Name Stop Unit := do
  openPath pathErrors path
  orFail ioError (← inspect)
  orFail ioError (← inspect)
  orFail ioError (← inspect)
  if held then fail (.refused .conflict)
  else
    orFail (fun _ => .refused .conflict) (← inspect)
    cleanupStaging

def writeRecord (store : FileStore) (name : Name) (bytes : List UInt8) (replace : Bool) :
    Prog Name Stop Unit :=
  if ¬ (name = .identity ∧ replace = false ∨ name = .contacts ∧ replace = true) then
    fail (.refused .invalidInput)
  else if bytes.length > store.limits.recordBytes.toNat then fail (.refused .resourceLimit)
  else
    let staging := if name = .identity then .identityPending else .contactsPending
    replaceFile staging name replace recordErrors bytes

def readBytes (name : Name) (maximum : Nat) : Prog Name Stop (List UInt8) := do
  let file ← orFail ioError (← openRead name)
  orFail ioError (← inspect)
  let length ← orFail (fun _ => unavailable) (← size file)
  if length > maximum then fail (.refused .resourceLimit)
  else match checkedAdd maximum 1 with
    | none => fail (.refused .resourceLimit)
    | some bound => do
      let bytes ← orFail (fun _ => unavailable) (← Durable.read file bound)
      if bytes.length > maximum then fail (.refused .resourceLimit) else pure bytes

section

variable (credential : IdentityKeys → Except CryptoError RecipientCredential)
  (fromStr : List Char → Option IpAddr)

def install (store : FileStore) (admin : Capability) (record : CredentialRecord) :
    Prog Name Stop Unit := do
  ofExcept (store.authority.checkAdministration admin record.bytes.length)
  let _ ← ofExcept (record.decode credential)
  writeRecord store .identity record.bytes false

def replaceContacts (store : FileStore) (admin : Capability) (contacts : List Contact) :
    Prog Name Stop Unit := do
  let bytes ← ofExcept (store.replaceContacts admin contacts)
  writeRecord store .contacts bytes true

def read (store : FileStore) (admin : Capability) : Prog Name Stop CredentialRecord := do
  ofExcept (store.authority.checkAdministration admin recordBytes)
  let bytes ← readBytes .identity store.limits.recordBytes.toNat
  ofExcept (CredentialRecord.fromProtectedBytes bytes store.limits)

def reconcile (store : FileStore) (admin : Capability) : Prog Name Stop CredentialRecord := do
  let record ← read store admin
  let _ ← ofExcept (record.decode credential)
  orFail (fun _ => outcomeUnknown) (← syncDirectory)
  pure record

-- What is read goes once more through the checks of the pure reader, with the same results.
def readContacts (store : FileStore) (admin : Capability) : Prog Name Stop (List Contact) := do
  ofExcept (store.authority.checkAdministration admin store.limits.recordBytes.toNat)
  let bytes ← readBytes .contacts store.limits.recordBytes.toNat
  ofExcept (store.readContacts fromStr admin bytes)

def reconcileContacts (store : FileStore) (admin : Capability) : Prog Name Stop (List Contact) := do
  let contacts ← readContacts fromStr store admin
  orFail (fun _ => outcomeUnknown) (← syncDirectory)
  pure contacts

end

/-! The bytes of a snapshot. -/

def snapshotBytes (contacts : List Contact) : List UInt8 :=
  Json.utf8 (header ++ (ordered contacts).flatMap fun c => (format c).toOption.getD [] ++ ['\n'])

theorem records_eq {contacts : List Contact} {record : List Char}
    (h : Contacts.Records contacts record) :
    record = header ++ contacts.flatMap fun c => (format c).toOption.getD [] ++ ['\n'] := by
  obtain ⟨lines, hlines, rfl⟩ := h
  induction hlines with
  | nil => rfl
  | cons hline _ ih =>
    rw [List.append_cancel_left_eq] at ih ⊢
    rw [List.flatMap_cons, List.flatMap_cons, ← ih, hline]
    rfl

theorem replaceContacts_eq {store : FileStore} {admin : Capability} {contacts : List Contact}
    {bytes : List UInt8} (h : store.replaceContacts admin contacts = .ok bytes) :
    bytes = snapshotBytes contacts := by
  obtain ⟨-, -, record, hrecord, rfl⟩ := FileStore.replaceContacts_ok h
  rw [snapshotBytes, ← records_eq hrecord]

/-! Only the synchronization of the directory leaves an outcome open. -/

section

variable {α β : Type}

def Decided (x : Except Stop α) : Prop := x ≠ .error outcomeUnknown

theorem Decided.bind {x : Except Stop α} {f : α → Except Stop β} (hx : Decided x)
    (hf : ∀ a, Decided (f a)) : Decided (x >>= f) := by
  cases x with
  | ok a => exact hf a
  | error e => exact fun h => hx (congrArg Except.error (Except.error.inj h))

theorem decided_ok (a : α) : Decided (.ok a) := nofun

theorem decided_refuse {e : Contacts.Error} (h : e ≠ .outcomeUnknown) :
    Decided (refuse e : Except Stop α) := by
  intro heq
  exact h (Stop.refused.inj (Except.error.inj heq))

theorem decided_guard {e : Contacts.Error} (h : e ≠ .outcomeUnknown) {p : Prop} [Decidable p]
    {x : Except Stop α} (hx : Decided x) : Decided (if p then refuse e else x) := by
  split_ifs
  · exact decided_refuse h
  · exact hx

theorem decided_foldlM {f : β → α → Except Stop β} (h : ∀ b a, Decided (f b a)) (l : List α)
    (b : β) : Decided (l.foldlM f b) := by
  induction l generalizing b with
  | nil => exact decided_ok b
  | cons a l ih =>
    rw [List.foldlM_cons]
    exact (h b a).bind ih

theorem decided_format (c : Contact) : Decided (format c) := by
  have htext : ∀ x : Except IdentityText.Stop String, Decided (Contacts.ofText x) := by
    rintro (e | text)
    · cases e with
      | invalidInput => exact decided_refuse (by decide)
      | outOfRange => exact nofun
    · exact decided_ok text
  refine (htext _).bind fun text => ?_
  split
  · exact decided_ok _
  · exact decided_guard (by decide) (decided_guard (by decide) (decided_ok _))

theorem decided_checkAdministration (authority : Contacts.Authority) (admin : Capability)
    (n : Nat) : Decided (authority.checkAdministration admin n) :=
  decided_guard (by decide) (decided_guard (by decide) (decided_ok _))

theorem decided_decode (credential : IdentityKeys → Except CryptoError RecipientCredential)
    (record : CredentialRecord) : Decided (record.decode credential) := by
  have hcrypto : ∀ x : Except CryptoError RecipientCredential, Decided (ofCrypto x) := by
    rintro (e | derived)
    · cases e <;> exact decided_refuse (by decide)
    · exact decided_ok derived
  exact (hcrypto _).bind fun _ => decided_guard (by decide) (decided_ok _)

theorem decided_authorize (book : Contacts.ContactBook) (n : Nat) : Decided (book.authorize n) :=
  decided_guard (by decide) (decided_ok _)

theorem decided_replace (book : Contacts.ContactBook) (n : Nat) (contacts : List Contact) :
    Decided (book.replace n contacts) := by
  refine (decided_authorize book n).bind fun _ => decided_guard (by decide) ?_
  refine (decided_foldlM (fun next c => ?_) contacts ∅).bind fun _ => decided_ok _
  refine ((decided_format c).bind fun text => ?_).bind fun _ => ?_
  · exact decided_guard (by decide) (decided_ok _)
  · exact decided_guard (by decide) (decided_ok _)

theorem decided_replaceContacts (store : FileStore) (admin : Capability)
    (contacts : List Contact) : Decided (store.replaceContacts admin contacts) := by
  refine (decided_checkAdministration _ _ _).bind fun _ => (decided_replace _ _ _).bind fun _ => ?_
  refine ((decided_authorize _ _).bind fun _ => decided_ok _).bind fun entries => ?_
  refine (decided_foldlM (fun record c => ?_) entries header).bind fun record => ?_
  · exact (decided_format c).bind fun line => decided_guard (by decide) (decided_ok _)
  · exact decided_guard (by decide) (decided_ok _)

end

/-! What the operations do to the disk. -/

section

variable {credential : IdentityKeys → Except CryptoError RecipientCredential}
  {fromStr : List Char → Option IpAddr} {d : Disk Name} {store : FileStore} {admin : Capability}

theorem openStore_meets (ha : Durable.Alive d) (path : List Component) (held : Bool) :
    Meets (fun x => x = d) (openStore path held)
      (fun _ => Entered [.identityPending, .contactsPending] d)
      (fun _ => Kept [.identityPending, .contactsPending] d)
      (Kept [.identityPending, .contactsPending] d) := by
  refine .bind (openPath_meets path) fun _ => .opened ha fun d ha => ?_
  have hclear : ∀ name ∈ [Name.identityPending, .contactsPending],
      Meets (Kept [.identityPending, .contactsPending] d) (clear name stagingErrors)
        (fun _ => Kept [.identityPending, .contactsPending] d)
        (fun _ => Kept [.identityPending, .contactsPending] d)
        (Kept [.identityPending, .contactsPending] d) := by
    refine fun name hname => .start fun x hx => ?_
    exact (clear_meets (hx.alive ha) hname).weaken (fun _ h => h)
      (fun _ _ h => hx.trans h) (fun _ _ h => hx.trans h) fun _ h => hx.trans h
  refine .check .inspect fun _ => .check .inspect fun _ => .check .inspect fun _ => ?_
  split_ifs
  · exact .fail fun _ h => h
  · refine .check .inspect fun _ => .bind (hclear _ (by decide)) fun _ => hclear _ (by decide)

/-- The outcome of writing a record, which only an unknown outcome leaves open. -/
def WritesRecord (staging target : Name) (replace : Bool) (bytes : List UInt8) (d : Disk Name)
    (prog : Prog Name Stop Unit) : Prop :=
  Meets (fun x => x = d) prog
    (fun _ x => Replaced staging target replace bytes d x ∧
      ∀ name, x.survivors name = [x.entries name])
    (fun e x => (e ≠ outcomeUnknown ∧ Untouched staging d x) ∨
      (e = outcomeUnknown ∧ Replaced staging target replace bytes d x))
    (fun x => Untouched staging d x ∨ Replaced staging target replace bytes d x)

theorem writesRecord_ofExcept {α : Type} {staging target : Name} {replace : Bool}
    {bytes : List UInt8} {x : Except Stop α} {f : α → Prog Name Stop Unit} (hx : Decided x)
    (hf : ∀ a, x = .ok a → WritesRecord staging target replace bytes d (f a)) :
    WritesRecord staging target replace bytes d (ofExcept x >>= f) := by
  refine .ofExcept hf fun e y he hy => .inl ⟨?_, hy ▸ Untouched.refl _ y⟩
  rintro rfl
  exact hx he

theorem writeRecord_meets (ha : Durable.Alive d) {staging target : Name} {replace : Bool}
    (h : (staging, target, replace) = (.identityPending, .identity, false) ∨
      (staging, target, replace) = (.contactsPending, .contacts, true)) (bytes : List UInt8) :
    WritesRecord staging target replace bytes d (writeRecord store target bytes replace) := by
  have hrefuse : ∀ e, e ≠ outcomeUnknown →
      WritesRecord staging target replace bytes d (Durable.fail e) :=
    fun e he => .fail fun x hx => .inl ⟨he, hx ▸ Untouched.refl _ x⟩
  have hstaging : (if target = .identity then .identityPending else .contactsPending) = staging ∧
      staging ≠ target := by
    obtain ⟨rfl, rfl, rfl⟩ | ⟨rfl, rfl, rfl⟩ := h
    · decide
    · decide
  rw [writeRecord]
  dsimp only
  rw [hstaging.1]
  split_ifs
  · exact hrefuse _ (by decide)
  · exact replaceFile_meets hstaging.2 ha
  · exact hrefuse _ (by decide)

theorem install_meets (ha : Durable.Alive d) (record : CredentialRecord) :
    WritesRecord .identityPending .identity false record.bytes d
      (install credential store admin record) :=
  writesRecord_ofExcept (decided_checkAdministration _ _ _) fun _ _ =>
    writesRecord_ofExcept (decided_decode _ _) fun _ _ => writeRecord_meets ha (.inl rfl) _

theorem replaceContacts_meets (ha : Durable.Alive d) (contacts : List Contact) :
    WritesRecord .contactsPending .contacts true (snapshotBytes contacts) d
      (replaceContacts store admin contacts) := by
  refine writesRecord_ofExcept (decided_replaceContacts _ _ _) fun bytes hbytes => ?_
  rw [replaceContacts_eq hbytes]
  exact writeRecord_meets ha (.inr rfl) _

theorem WritesRecord.run {staging target : Name} {replace : Bool} {bytes : List UInt8}
    {prog : Prog Name Stop Unit} (h : WritesRecord staging target replace bytes d prog)
    {d' : Disk Name} {faults : List Fault} {reply : Reply Stop Unit}
    (hrun : Durable.run prog d faults = (reply, d')) :
    Attempted staging target replace bytes d d' reply.acknowledged := by
  have hmeets := Meets.run h rfl hrun
  cases reply with
  | ok _ => exact .acknowledged hmeets.1 hmeets.2
  | failed e =>
    obtain ⟨-, hu⟩ | ⟨-, hr⟩ := hmeets
    · exact .untouched hu
    · exact .replaced hr
  | stopped =>
    obtain hu | hr := hmeets
    · exact .untouched hu
    · exact .replaced hr

theorem readBytes_meets (name : Name) (maximum : Nat) :
    Meets (fun x => x = d) (readBytes name maximum)
      (fun bytes x => x = d ∧ Refers name bytes d) (fun _ x => x = d) (fun x => x = d) := by
  refine .attempt (Q := fun file x => x = d ∧ d.entries name = some file)
    (openRead_meets.weaken (fun _ h => h) (fun r x h => ?_) (fun _ _ h => h) fun _ h => h)
    fun file => ?_
  · cases r with
    | ok file => exact h
    | error e => exact h.1
  refine .start fun x hx => ?_
  obtain ⟨rfl, hfile⟩ := hx
  refine .check .inspect fun _ => .observe ?_
  split_ifs with hsize
  · exact .fail fun _ h => h
  split
  · exact .fail fun _ h => h
  next bound hbound =>
    refine .observe ?_
    have hlong : (x.contents file).length ≤ bound := by
      have := (checkedAdd_some.mp hbound).1
      omega
    rw [List.take_of_length_le hlong, if_neg hsize]
    exact .ret fun y hy => ⟨hy, file, hfile, rfl⟩

theorem fromProtectedBytes_bytes {bytes : List UInt8} {limits : Contacts.Limits}
    {record : CredentialRecord}
    (h : CredentialRecord.fromProtectedBytes bytes limits = .ok record) : record.bytes = bytes := by
  rw [CredentialRecord.fromProtectedBytes] at h
  split_ifs at h
  · exact nomatch h
  · exact nomatch h
  · exact nomatch h
  · exact congrArg CredentialRecord.bytes (Except.ok.inj h).symm

theorem read_meets : Meets (fun x => x = d) (read store admin)
    (fun record x => x = d ∧ Refers .identity record.bytes d) (fun _ x => x = d)
    fun x => x = d := by
  refine .ofExcept (fun _ _ => .bind (readBytes_meets _ _) fun bytes => ?_) fun _ _ _ h => h
  refine .ofExceptLast (fun record x hrecord hx => ?_) fun _ _ _ h => h.1
  exact ⟨hx.1, fromProtectedBytes_bytes hrecord ▸ hx.2⟩

theorem readContacts_meets : Meets (fun x => x = d) (readContacts fromStr store admin)
    (fun contacts x => x = d ∧ ∃ bytes, Refers .contacts bytes d ∧
      store.readContacts fromStr admin bytes = .ok contacts) (fun _ x => x = d) fun x => x = d := by
  refine .ofExcept (fun _ _ => .bind (readBytes_meets _ _) fun bytes => ?_) fun _ _ _ h => h
  exact .ofExceptLast (fun _ x hcontacts hx => ⟨hx.1, bytes, hx.2, hcontacts⟩) fun _ _ _ h => h.1

theorem reconcile_meets : Meets (fun x => x = d) (reconcile credential store admin)
    (fun record x => x = d.settle ∧ Refers .identity record.bytes d) (fun _ x => x = d)
    fun x => x = d := by
  refine .bind read_meets fun record => .start fun x hx => ?_
  obtain ⟨rfl, hrecord⟩ := hx
  exact .ofExcept (fun _ _ => .settle ⟨rfl, hrecord⟩) fun _ _ _ h => h

theorem reconcileContacts_meets : Meets (fun x => x = d) (reconcileContacts fromStr store admin)
    (fun contacts x => x = d.settle ∧ ∃ bytes, Refers .contacts bytes d ∧
      store.readContacts fromStr admin bytes = .ok contacts) (fun _ x => x = d) fun x => x = d := by
  refine .bind readContacts_meets fun contacts => .start fun x hx => ?_
  obtain ⟨rfl, hcontacts⟩ := hx
  exact .settle ⟨rfl, hcontacts⟩

end

/-! Runs of a store. -/

structure World where
  disk : Disk Name
  /-- The store that is open and holds the lock. -/
  store : Option FileStore
  identity : List (Durable.Event CredentialRecord)
  contacts : List (Durable.Event (List Contact))

inductive Label
  | opened (reply : Reply Stop Unit)
  | installed (record : CredentialRecord) (reply : Reply Stop Unit)
  | contactsReplaced (contacts : List Contact) (reply : Reply Stop Unit)
  | credentialsRead (reply : Reply Stop CredentialRecord)
  | contactsRead (reply : Reply Stop (List Contact))
  | closed
  | powerLost

section

variable (credential : IdentityKeys → Except CryptoError RecipientCredential)
  (fromStr : List Char → Option IpAddr)

inductive Step : World → Label → World → Prop
  | opened {w : World} {path : List Component} (limits : Contacts.Limits) (allocation : Nat)
      {faults : List Fault} {reply : Reply Stop Unit} {disk : Disk Name}
      (hrun : run (openStore path w.store.isSome) w.disk faults = (reply, disk)) :
      Step w (.opened reply) { w with
        disk := disk
        store := if reply.acknowledged then some ⟨⟨allocation, true⟩, limits⟩
          else reply.keep w.store }
  | installed {w : World} {store : FileStore} {admin : Capability} {record : CredentialRecord}
      {faults : List Fault} {reply : Reply Stop Unit} {disk : Disk Name}
      (hstore : w.store = some store)
      (hrun : run (install credential store admin record) w.disk faults = (reply, disk)) :
      Step w (.installed record reply) { w with
        disk := disk
        store := reply.keep w.store
        identity := .attempt record (disk.entries .identity ≠ w.disk.entries .identity)
          reply.acknowledged :: w.identity }
  | contactsReplaced {w : World} {store : FileStore} {admin : Capability}
      {contacts : List Contact} {faults : List Fault} {reply : Reply Stop Unit}
      {disk : Disk Name} (hstore : w.store = some store)
      (hrun : run (replaceContacts store admin contacts) w.disk faults = (reply, disk)) :
      Step w (.contactsReplaced contacts reply) { w with
        disk := disk
        store := reply.keep w.store
        contacts := .attempt contacts (disk.entries .contacts ≠ w.disk.entries .contacts)
          reply.acknowledged :: w.contacts }
  | read {w : World} {store : FileStore} {admin : Capability} {faults : List Fault}
      {reply : Reply Stop CredentialRecord} {disk : Disk Name} (hstore : w.store = some store)
      (hrun : run (read store admin) w.disk faults = (reply, disk)) :
      Step w (.credentialsRead reply) { w with disk := disk, store := reply.keep w.store }
  | reconciled {w : World} {store : FileStore} {admin : Capability} {faults : List Fault}
      {reply : Reply Stop CredentialRecord} {disk : Disk Name} (hstore : w.store = some store)
      (hrun : run (reconcile credential store admin) w.disk faults = (reply, disk)) :
      Step w (.credentialsRead reply) { w with disk := disk, store := reply.keep w.store }
  | contactsRead {w : World} {store : FileStore} {admin : Capability} {faults : List Fault}
      {reply : Reply Stop (List Contact)} {disk : Disk Name} (hstore : w.store = some store)
      (hrun : run (readContacts fromStr store admin) w.disk faults = (reply, disk)) :
      Step w (.contactsRead reply) { w with disk := disk, store := reply.keep w.store }
  | contactsReconciled {w : World} {store : FileStore} {admin : Capability} {faults : List Fault}
      {reply : Reply Stop (List Contact)} {disk : Disk Name} (hstore : w.store = some store)
      (hrun : run (reconcileContacts fromStr store admin) w.disk faults = (reply, disk)) :
      Step w (.contactsRead reply) { w with disk := disk, store := reply.keep w.store }
  | closed {w : World} : Step w .closed { w with store := none }
  | powerLost {w : World} {disk : Disk Name} (hsurvives : Survives w.disk disk) :
      Step w .powerLost { w with disk := disk, store := none }

end

def World.fresh (present : Bool) : World := ⟨.blank present, none, [], []⟩

def Label.opens : Label → Bool
  | .opened reply => reply.acknowledged
  | _ => false

/-! Every run. -/

structure Inv (w : World) : Prop where
  identity : Tracks CredentialRecord.bytes .identity w.disk w.identity
  contacts : Tracks snapshotBytes .contacts w.disk w.contacts
  alive : Durable.Alive w.disk
  anchored : w.store ≠ none → false ∉ w.disk.presence
  once : Once w.identity

section

variable {credential : IdentityKeys → Except CryptoError RecipientCredential}
  {fromStr : List Char → Option IpAddr} {w w' : World} {disk : Disk Name}
  {store : Option FileStore} {present : Bool}

theorem inv_fresh (present : Bool) : Inv (.fresh present) where
  identity := tracks_blank _ _ present
  contacts := tracks_blank _ _ present
  alive _ := List.mem_singleton_self _
  anchored h := absurd rfl h
  once newer r i older h := by simp [World.fresh] at h

theorem Inv.kept (h : Inv w) (hkept : Kept [.identityPending, .contactsPending] w.disk disk)
    (hstore : store ≠ none → false ∉ disk.presence) :
    Inv { w with disk := disk, store := store } where
  identity := h.identity.keeps (hkept.keeps _ (by decide))
  contacts := h.contacts.keeps (hkept.keeps _ (by decide))
  alive := hkept.alive h.alive
  anchored := hstore
  once := h.once

theorem Inv.installed (h : Inv w) (hopen : w.store ≠ none) {record : CredentialRecord} {a : Bool}
    (hattempt : Attempted .identityPending .identity false record.bytes w.disk disk a) :
    Inv ⟨disk, store, .attempt record (disk.entries .identity ≠ w.disk.entries .identity) a ::
      w.identity, w.contacts⟩ where
  identity := h.identity.attempted hattempt (by decide) fun _ => h.anchored hopen
  contacts := h.contacts.keeps (hattempt.keeps (by decide) (by decide))
  alive := hattempt.alive h.alive
  anchored _ hp := h.anchored hopen (hattempt.presence hp)
  once := h.once.attempt fun hchanged =>
    h.identity.holds.vacant (hattempt.vacant (by decide) (of_decide_eq_true hchanged))

theorem Inv.contactsReplaced (h : Inv w) (hopen : w.store ≠ none) {contacts : List Contact}
    {a : Bool} (hattempt : Attempted .contactsPending .contacts true (snapshotBytes contacts)
      w.disk disk a) :
    Inv ⟨disk, store, w.identity, .attempt contacts
      (disk.entries .contacts ≠ w.disk.entries .contacts) a :: w.contacts⟩ where
  identity := h.identity.keeps (hattempt.keeps (by decide) (by decide))
  contacts := h.contacts.attempted hattempt (by decide) fun _ => h.anchored hopen
  alive := hattempt.alive h.alive
  anchored _ hp := h.anchored hopen (hattempt.presence hp)
  once := h.once

theorem Inv.looked (h : Inv w) (hopen : w.store ≠ none)
    (hdisk : disk = w.disk ∨ disk = w.disk.settle) :
    Inv { w with disk := disk, store := store } := by
  obtain rfl | rfl := hdisk
  · exact h.kept (Kept.refl _ _) fun _ => h.anchored hopen
  · exact h.kept (Kept.settle _ h.alive) fun _ => h.anchored hopen

theorem inv_step {l : Label} (h : Inv w) (hl : Anchored World.disk Label.opens w l)
    (hstep : Step credential fromStr w l w') : Inv w' := by
  have hopen : ∀ {store}, w.store = some store → w.store ≠ none := by
    intro store hstore
    simp [hstore]
  cases hstep with
  | @opened path limits allocation faults reply disk hrun =>
    obtain ⟨hkept, hopened⟩ := opened_run (openStore_meets h.alive path _) hrun
    refine h.kept hkept fun hstore => ?_
    cases reply with
    | ok _ => exact hopened rfl (hl rfl)
    | failed e => exact fun hp => h.anchored hstore (hkept.presence hp)
    | stopped => exact absurd rfl hstore
  | installed hstore hrun =>
    exact h.installed (hopen hstore) ((install_meets h.alive _).run hrun)
  | contactsReplaced hstore hrun =>
    exact h.contactsReplaced (hopen hstore) ((replaceContacts_meets h.alive _).run hrun)
  | @read store admin faults reply disk hstore hrun =>
    have hmeets := read_meets.run rfl hrun
    refine h.looked (hopen hstore) (.inl ?_)
    cases reply with
    | ok _ => exact hmeets.1
    | failed _ => exact hmeets
    | stopped => exact hmeets
  | @reconciled store admin faults reply disk hstore hrun =>
    have hmeets := reconcile_meets.run rfl hrun
    refine h.looked (hopen hstore) ?_
    cases reply with
    | ok _ => exact .inr hmeets.1
    | failed _ => exact .inl hmeets
    | stopped => exact .inl hmeets
  | @contactsRead store admin faults reply disk hstore hrun =>
    have hmeets := readContacts_meets.run rfl hrun
    refine h.looked (hopen hstore) (.inl ?_)
    cases reply with
    | ok _ => exact hmeets.1
    | failed _ => exact hmeets
    | stopped => exact hmeets
  | @contactsReconciled store admin faults reply disk hstore hrun =>
    have hmeets := reconcileContacts_meets.run rfl hrun
    refine h.looked (hopen hstore) ?_
    cases reply with
    | ok _ => exact .inr hmeets.1
    | failed _ => exact .inl hmeets
    | stopped => exact .inl hmeets
  | closed => exact ⟨h.identity, h.contacts, h.alive, fun hs => absurd rfl hs, h.once⟩
  | powerLost hsurvives =>
    refine ⟨h.identity.survives hsurvives, h.contacts.survives hsurvives, fun name => ?_,
      fun hs => absurd rfl hs, h.once⟩
    exact hsurvives.survivors name ▸ List.mem_singleton_self _

/-- What a failed write says about the name it is for. -/
def Reported (target : Name) (bytes : List UInt8) (e : Stop) (d d' : Disk Name) : Prop :=
  if e = outcomeUnknown then Refers target bytes d'
  else d'.entries target = d.entries target ∧
    ∀ file, d.entries target = some file → d'.contents file = d.contents file

theorem WritesRecord.reported {ρ : Type} {spell : ρ → List UInt8} {log : List (Durable.Event ρ)}
    {staging target : Name} {replace : Bool} {bytes : List UInt8} {d d' : Disk Name}
    {prog : Prog Name Stop Unit} {faults : List Fault} {e : Stop}
    (h : WritesRecord staging target replace bytes d prog) (ht : Tracks spell target d log)
    (hne : target ≠ staging) (hrun : Durable.run prog d faults = (.failed e, d')) :
    Reported target bytes e d d' := by
  obtain ⟨he, hu⟩ | ⟨he, hr⟩ := Meets.run h rfl hrun
  · rw [Reported, if_neg he]
    have hkeeps := hu.keeps target hne
    refine ⟨hkeeps.entry, fun file hfile => hkeeps.contents file ?_⟩
    exact (ht.files file (hfile ▸ ht.live)).2
  · rw [Reported, if_pos he]
    obtain ⟨file, hentry, hcontents, -⟩ := hr.installed.entry
    exact ⟨file, hentry, hcontents⟩

end

section

variable (credential : IdentityKeys → Except CryptoError RecipientCredential)
  (fromStr : List Char → Option IpAddr)

/-- What the store promises in a state. -/
structure Safe (w : World) : Prop where
  /-- Credentials that were installed and acknowledged are there for good. -/
  once : ∀ newer record i older, w.identity = newer ++ .attempt record i true :: older →
    Uninstalled newer ∧ Refers .identity record.bytes w.disk
  identity : Holds CredentialRecord.bytes .identity w.disk w.identity
  contacts : Holds snapshotBytes .contacts w.disk w.contacts
  /-- Contacts that were acknowledged are there until others are installed. -/
  durable : ∀ newer contacts i older, w.contacts = newer ++ .attempt contacts i true :: older →
    Uninstalled newer → Refers .contacts (snapshotBytes contacts) w.disk
  installing : ∀ record e w', Step credential fromStr w (.installed record (.failed e)) w' →
    Reported .identity record.bytes e w.disk w'.disk
  replacing : ∀ contacts e w',
    Step credential fromStr w (.contactsReplaced contacts (.failed e)) w' →
    Reported .contacts (snapshotBytes contacts) e w.disk w'.disk
  /-- Nothing is read as a record but what its own name refers to. -/
  credentialsRead : ∀ record w', Step credential fromStr w (.credentialsRead (.ok record)) w' →
    Refers .identity record.bytes w.disk
  contactsRead : ∀ contacts w', Step credential fromStr w (.contactsRead (.ok contacts)) w' →
    ∃ bytes, Refers .contacts bytes w.disk ∧
      ∃ store admin, FileStore.readContacts fromStr store admin bytes = .ok contacts

theorem store_safe {present : Bool} {w : World}
    (h : Reaches (Step credential fromStr) (Anchored World.disk Label.opens) (.fresh present) w) :
    Safe credential fromStr w := by
  have hinv := h.inv (inv_fresh present) inv_step
  constructor
  case once =>
    intro newer record i older hlog
    have hnewer := hinv.once newer record i older hlog
    have htracks := hinv.identity
    rw [hlog] at htracks
    exact ⟨hnewer, htracks.kept hnewer (.inr ⟨i, rfl⟩)⟩
  case identity => exact hinv.identity.holds
  case contacts => exact hinv.contacts.holds
  case durable =>
    intro newer contacts i older hlog hnewer
    have htracks := hinv.contacts
    rw [hlog] at htracks
    exact htracks.kept hnewer (.inr ⟨i, rfl⟩)
  case installing =>
    intro record e w' hstep
    cases hstep with
    | installed hstore hrun =>
      exact (install_meets hinv.alive record).reported hinv.identity (by decide) hrun
  case replacing =>
    intro contacts e w' hstep
    cases hstep with
    | contactsReplaced hstore hrun =>
      exact (replaceContacts_meets hinv.alive contacts).reported hinv.contacts (by decide) hrun
  case credentialsRead =>
    intro record w' hstep
    cases hstep with
    | read hstore hrun => exact (read_meets.run rfl hrun).2
    | reconciled hstore hrun => exact (reconcile_meets.run rfl hrun).2
  case contactsRead =>
    intro contacts w' hstep
    cases hstep with
    | contactsRead hstore hrun =>
      obtain ⟨-, bytes, hbytes, hread⟩ := readContacts_meets.run rfl hrun
      exact ⟨bytes, hbytes, _, _, hread⟩
    | contactsReconciled hstore hrun =>
      obtain ⟨-, bytes, hbytes, hread⟩ := reconcileContacts_meets.run rfl hrun
      exact ⟨bytes, hbytes, _, _, hread⟩

end

/-! Where the directory itself may be lost, and where it may not. -/

def smallStore : FileStore := Contacts.storeWith 4096 (by decide)

/-- Keys that are their own public parts. -/
def sampleCredential (keys : IdentityKeys) : Except CryptoError RecipientCredential :=
  .ok ⟨keys.signing, keys.signing, keys.encryption, .replicate 64 0⟩

def sampleRecord (byte : UInt8) : CredentialRecord where
  bytes := magic ++ (.replicate 32 byte ++ (.replicate 32 0 ++ (.replicate 64 byte ++
    .replicate 96 0)))
  length_eq := rfl
  magic_eq := rfl

def installed (record : CredentialRecord) : Prog Name Stop Unit :=
  replaceFile .identityPending .identity false recordErrors record.bytes

def replaced (contacts : List Contact) : Prog Name Stop Unit :=
  replaceFile .contactsPending .contacts true recordErrors (snapshotBytes contacts)

theorem install_sample {record : CredentialRecord}
    (h : (record.decode sampleCredential).isOk = true) :
    install sampleCredential smallStore Contacts.administrator record = installed record := by
  cases hdecode : record.decode sampleCredential with
  | error e =>
    rw [hdecode] at h
    cases h
  | ok keys =>
    have hcheck : smallStore.authority.checkAdministration Contacts.administrator recordBytes =
        .ok () := rfl
    rw [install, record.length_eq, hcheck, hdecode]
    show writeRecord smallStore .identity record.bytes false = _
    rw [writeRecord, if_neg (by decide), record.length_eq, if_neg (by decide)]
    rfl

theorem replaceContacts_sample {contacts : List Contact} (h : ((smallStore.replaceContacts
      Contacts.administrator contacts).toOption.any fun bytes => bytes.length ≤ 4096) = true) :
    replaceContacts smallStore Contacts.administrator contacts = replaced contacts := by
  cases hbytes : smallStore.replaceContacts Contacts.administrator contacts with
  | error e =>
    rw [hbytes] at h
    cases h
  | ok bytes =>
    rw [hbytes] at h
    have hshort : bytes.length ≤ smallStore.limits.recordBytes.toNat := of_decide_eq_true h
    rw [replaceContacts, hbytes]
    show writeRecord smallStore .contacts bytes true = _
    rw [writeRecord, if_neg (by decide), if_neg hshort.not_gt, replaceContacts_eq hbytes]
    rfl

abbrev SampleStep : World → Label → World → Prop := Step sampleCredential Contacts.readLoopback

theorem acknowledged_contacts_lost : ∃ w, Reaches SampleStep (fun _ _ => True) (.fresh false) w ∧
    .attempt [] true true ∈ w.contacts ∧ w.disk.entries .contacts = none := by
  let after := (run (replaced []) .unanchored []).2
  have hfailed : run (openStore [.normal] false) (.blank false)
      [.none, .none, .none, .fails false []] = (.failed unavailable, .unanchored) := rfl
  have hopened : run (openStore [.normal] false) .unanchored [] = (.ok (), .unanchored) := rfl
  have hreplaced : run (replaceContacts smallStore Contacts.administrator []) .unanchored [] =
      (.ok (), after) := by
    rw [replaceContacts_sample (by decide)]
    rfl
  have h₁ : SampleStep (.fresh false) _ ⟨.unanchored, none, [], []⟩ :=
    Step.opened (w := .fresh false) smallStore.limits 0 hfailed
  have h₂ : SampleStep _ _ ⟨.unanchored, some smallStore, [], []⟩ :=
    Step.opened (w := ⟨.unanchored, none, [], []⟩) smallStore.limits 0 hopened
  have h₃ : SampleStep _ _ ⟨after, some smallStore, [], [.attempt [] true true]⟩ :=
    Step.contactsReplaced (w := ⟨.unanchored, some smallStore, [], []⟩) rfl hreplaced
  have h₄ : SampleStep _ _ ⟨after.lost, none, [], [.attempt [] true true]⟩ :=
    Step.powerLost (w := ⟨after, some smallStore, [], _⟩) (survives_lost (by decide))
  exact ⟨_, (((Reaches.start.step trivial h₁).step trivial h₂).step trivial h₃).step trivial h₄,
    List.mem_cons_self, rfl⟩

/-- The directory is made, credentials and a contact are written, a second snapshot stops after
its renaming, a loss of power takes that back, and other credentials are refused. -/
theorem store_safe_replaced : ∃ w,
    Reaches SampleStep (Anchored World.disk Label.opens) (.fresh false) w ∧
    w.identity = [.attempt (sampleRecord 2) false false, .attempt (sampleRecord 1) true true] ∧
    w.contacts = [.attempt [] true false, .attempt [Contacts.loopback] true true] ∧
    Safe sampleCredential Contacts.readLoopback w := by
  let made : Disk Name := { Disk.blank false with present := true, presence := [true] }
  let first := (run (installed (sampleRecord 1)) made []).2
  let second := (run (replaced [Contacts.loopback]) first []).2
  let third := (run (replaced []) second (.replicate 5 .none ++ [.stops []])).2
  let left := third.restored second.entries
  let last := (run (installed (sampleRecord 2)) left []).2
  have hopened : run (openStore [.normal] false) (.blank false) [] = (.ok (), made) := rfl
  have hinstalled : run (install sampleCredential smallStore Contacts.administrator
      (sampleRecord 1)) made [] = (.ok (), first) := by
    rw [install_sample (by decide +kernel)]
    rfl
  have hreplaced : run (replaceContacts smallStore Contacts.administrator [Contacts.loopback])
      first [] = (.ok (), second) := by
    rw [replaceContacts_sample (by decide +kernel)]
    rfl
  have hstopped : run (replaceContacts smallStore Contacts.administrator []) second
      (.replicate 5 .none ++ [.stops []]) = (.stopped, third) := by
    rw [replaceContacts_sample (by decide)]
    rfl
  have hlost : Survives third left := by
    refine survives_restored (by decide) fun name => ?_
    cases name <;> decide
  have hreopened : run (openStore [.normal] false) left [] = (.ok (), left) := rfl
  have hrefused : run (install sampleCredential smallStore Contacts.administrator
      (sampleRecord 2)) left [] = (.failed (.refused .conflict), last) := by
    rw [install_sample (by decide +kernel)]
    rfl
  have hanchored : Disk.Anchored left := fun _ => by decide
  let kept : List (Durable.Event CredentialRecord) := [.attempt (sampleRecord 1) true true]
  let log : List (Durable.Event (List Contact)) := [.attempt [Contacts.loopback] true true]
  have h₁ : SampleStep (.fresh false) (.opened (.ok ())) ⟨made, some smallStore, [], []⟩ :=
    Step.opened (w := .fresh false) smallStore.limits 0 hopened
  have h₂ : SampleStep _ (.installed _ _) ⟨first, some smallStore, kept, []⟩ :=
    Step.installed (w := ⟨made, some smallStore, [], []⟩) rfl hinstalled
  have h₃ : SampleStep _ (.contactsReplaced _ _) ⟨second, some smallStore, kept, log⟩ :=
    Step.contactsReplaced (w := ⟨first, some smallStore, kept, []⟩) rfl hreplaced
  have h₄ : SampleStep _ (.contactsReplaced _ _)
      ⟨third, none, kept, .attempt [] true false :: log⟩ :=
    Step.contactsReplaced (w := ⟨second, some smallStore, kept, log⟩) rfl hstopped
  have h₅ : SampleStep _ .powerLost ⟨left, none, kept, .attempt [] true false :: log⟩ :=
    Step.powerLost (w := ⟨third, none, kept, _⟩) hlost
  have h₆ : SampleStep _ (.opened (.ok ())) ⟨left, some smallStore, kept, _ :: log⟩ :=
    Step.opened (w := ⟨left, none, kept, .attempt [] true false :: log⟩) smallStore.limits 0
      hreopened
  have h₇ : SampleStep _ (.installed _ _) ⟨last, some smallStore,
      .attempt (sampleRecord 2) false false :: kept, _ :: log⟩ :=
    Step.installed (w := ⟨left, some smallStore, kept, .attempt [] true false :: log⟩) rfl hrefused
  have hreach : Reaches SampleStep (Anchored World.disk Label.opens) (.fresh false) _ :=
    ((((((Reaches.start.step (by rintro - ⟨⟩) h₁).step (by rintro ⟨⟩) h₂).step (by rintro ⟨⟩)
      h₃).step (by rintro ⟨⟩) h₄).step (by rintro ⟨⟩) h₅).step (fun _ => hanchored) h₆).step
      (by rintro ⟨⟩) h₇
  exact ⟨_, hreach, rfl, rfl, store_safe _ _ hreach⟩

end TalkSphere.IdentityStore
