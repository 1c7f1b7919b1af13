import TalkSphere.Contacts
import TalkSphere.FiniteMap
import TalkSphere.Session

/-! Contact snapshots. A book holds contacts under their ids; a store writes a book as a header
and one line per contact, in id order, and reads it back through the same book. -/

namespace TalkSphere.Contacts

open FiniteMap (Keyed collect)
open Outcome (bind_ok foldlM_ok)
open Separated (terminated terminated_lines lines_terminated)
open Std (TreeMap)

/-! Local policy and authority. -/

structure Limits where
  textBytes : UInt64
  contacts : UInt64
  signingBytes : UInt64
  envelopeBytes : UInt64
  recordBytes : UInt64
  textBytes_ge : 58 ≤ textBytes
  contacts_ne : contacts ≠ 0
  signingBytes_ne : signingBytes ≠ 0
  envelopeBytes_ge : 148 ≤ envelopeBytes
  recordBytes_ne : recordBytes ≠ 0

def Limits.new (textBytes contacts signingBytes envelopeBytes recordBytes : UInt64) :
    Except Stop Limits :=
  if h : textBytes < 58 ∨ contacts = 0 ∨ signingBytes = 0 ∨ envelopeBytes < 148 ∨ recordBytes = 0
  then refuse .invalidInput
  else .ok {
    textBytes, contacts, signingBytes, envelopeBytes, recordBytes
    textBytes_ge := UInt64.not_lt.mp (not_or.mp h).1
    contacts_ne := (not_or.mp (not_or.mp h).2).1
    signingBytes_ne := (not_or.mp (not_or.mp (not_or.mp h).2).2).1
    envelopeBytes_ge := UInt64.not_lt.mp (not_or.mp (not_or.mp (not_or.mp (not_or.mp h).2).2).2).1
    recordBytes_ne := (not_or.mp (not_or.mp (not_or.mp (not_or.mp h).2).2).2).2 }

/-- A capability for administration. Its owner is an allocation, held weakly. -/
structure Capability where
  owner : Nat
  identity : Option IdentityId
  maximumBytes : UInt64

structure Authority where
  allocation : Nat
  live : Bool

-- An owner that is gone is not the authority's own allocation, and both are denied alike.
def Authority.checkAdministration (authority : Authority) (capability : Capability) (bytes : Nat) :
    Except Stop Unit :=
  if capability.owner ≠ authority.allocation ∨ authority.live = false ∨ capability.identity ≠ none
  then refuse .accessDenied
  else if bytes > capability.maximumBytes.toNat then refuse .resourceLimit
  else .ok ()

/-! The book. -/

def Contact.key (contact : Contact) : Vector UInt8 32 := contact.expectedId.bytes

structure ContactBook where
  access : Nat
  limits : Limits
  entries : TreeMap (Vector UInt8 32) Contact

namespace ContactBook

def new (allocation : Nat) (limits : Limits) : ContactBook × Nat :=
  ({ access := allocation, limits, entries := ∅ }, allocation)

def authorize (book : ContactBook) (authority : Nat) : Except Stop Unit :=
  if book.access ≠ authority then refuse .accessDenied else .ok ()

def validate (book : ContactBook) (contact : Contact) : Except Stop Unit := do
  let text ← format contact
  if size text > book.limits.textBytes.toNat then refuse .resourceLimit else .ok ()

def snapshot (book : ContactBook) (authority : Nat) : Except Stop (List Contact) := do
  book.authorize authority
  .ok (book.entries.toList.map Prod.snd)

/-- One round of the loop of `replace`. -/
def addEntry (book : ContactBook) (next : TreeMap (Vector UInt8 32) Contact) (contact : Contact) :
    Except Stop (TreeMap (Vector UInt8 32) Contact) := do
  book.validate contact
  if next.contains contact.key then refuse .conflict
  else .ok (next.insert contact.key contact)

def replace (book : ContactBook) (authority : Nat) (contacts : List Contact) :
    Except Stop ContactBook := do
  book.authorize authority
  if contacts.length > book.limits.contacts.toNat then refuse .resourceLimit
  else
    let next ← contacts.foldlM book.addEntry ∅
    .ok { book with entries := next }

def get (book : ContactBook) (authority : Nat) (id : IdentityId) : Except Stop (Option Contact) := do
  book.authorize authority
  .ok book.entries[id.bytes]?

def put (book : ContactBook) (authority : Nat) (contact : Contact) : Except Stop ContactBook := do
  book.authorize authority
  book.validate contact
  if ¬ book.entries.contains contact.key ∧ book.entries.size ≥ book.limits.contacts.toNat then
    refuse .resourceLimit
  else .ok { book with entries := book.entries.insert contact.key contact }

end ContactBook

/-! The store, when every file operation succeeds: what is written, and what is read. -/

def header : List Char := ['T', 'S', 'C', 'O', 'N', '0', '0', '1', '\n']

structure FileStore where
  authority : Authority
  limits : Limits

namespace FileStore

/-- One round of the loop that builds the record. -/
def addLine (store : FileStore) (record : List Char) (entry : Contact) : Except Stop (List Char) := do
  let line ← format entry
  if saturatingAdd (saturatingAdd (size record) (size line)) 1 > store.limits.recordBytes.toNat then
    refuse .resourceLimit
  else .ok (record ++ line ++ ['\n'])

/-- The bytes that a record of the store is given. -/
def writeRecord (store : FileStore) (bytes : List UInt8) : Except Stop (List UInt8) :=
  if bytes.length > store.limits.recordBytes.toNat then refuse .resourceLimit else .ok bytes

def replaceContacts (store : FileStore) (admin : Capability) (contacts : List Contact) :
    Except Stop (List UInt8) := do
  store.authority.checkAdministration admin store.limits.recordBytes.toNat
  let (book, access) := ContactBook.new 0 store.limits
  let book ← book.replace access contacts
  let entries ← book.snapshot access
  let record ← entries.foldlM store.addLine header
  store.writeRecord (Json.utf8 record)

def readBytes (file : List UInt8) (maximum : Nat) : Except Stop (List UInt8) :=
  if file.length > maximum then refuse .resourceLimit
  else match checkedAdd maximum 1 with
    | none => refuse .resourceLimit
    | some bound =>
      if (file.take bound).length > maximum then refuse .resourceLimit else .ok (file.take bound)

variable (fromStr : List Char → Option IpAddr)

/-- One round of the loop over the lines. -/
def readLine (store : FileStore) (contacts : List Contact) (line : List Char) :
    Except Stop (List Contact) :=
  if contacts.length ≥ store.limits.contacts.toNat then refuse .resourceLimit
  else do
    let entry ← parse fromStr line store.limits.textBytes.toNat
    let text ← format entry
    if text ≠ line then refuse .invalidInput else .ok (contacts ++ [entry])

def readContacts (store : FileStore) (admin : Capability) (file : List UInt8) :
    Except Stop (List Contact) := do
  store.authority.checkAdministration admin store.limits.recordBytes.toNat
  let bytes ← readBytes file store.limits.recordBytes.toNat
  let text ← need .invalidInput ((String.fromUTF8? ⟨bytes.toArray⟩).map String.toList)
  let body ← need .unsupported (text.dropPrefix? header)
  if body ≠ [] ∧ body.getLast? ≠ some '\n' then refuse .invalidInput
  else
    let contacts ← (terminated '\n' body).foldlM (store.readLine fromStr) []
    let (book, access) := ContactBook.new 0 store.limits
    let book ← book.replace access contacts
    book.snapshot access

end FileStore

/-! What a book accepts. -/

def Fits (limits : Limits) (contact : Contact) : Prop :=
  ∃ text, format contact = .ok text ∧ size text ≤ limits.textBytes.toNat

/-- A list of contacts that a book under these limits may hold. -/
structure Accepted (limits : Limits) (contacts : List Contact) : Prop where
  count : contacts.length ≤ limits.contacts.toNat
  fits : ∀ c ∈ contacts, Fits limits c
  distinct : (contacts.map Contact.key).Nodup

theorem Accepted.of_perm {limits : Limits} {contacts entries : List Contact}
    (h : Accepted limits contacts) (hperm : entries.Perm contacts) : Accepted limits entries where
  count := hperm.length_eq ▸ h.count
  fits c hc := h.fits c (hperm.mem_iff.mp hc)
  distinct := (hperm.map Contact.key).nodup_iff.mpr h.distinct

namespace ContactBook

variable {book book' : ContactBook} {authority : Nat} {contacts : List Contact}

theorem authorize_ok : book.authorize authority = .ok () ↔ book.access = authority := by
  by_cases h : book.access = authority <;> simp [authorize, h, refuse]

theorem validate_ok {contact : Contact} :
    book.validate contact = .ok () ↔ Fits book.limits contact := by
  refine bind_ok.trans (exists_congr fun text => and_congr_right fun _ => ?_)
  by_cases h : size text > book.limits.textBytes.toNat
  · simp [h, refuse]
  · simp [h, not_lt.mp h]

theorem addEntry_ok {next next' : TreeMap (Vector UInt8 32) Contact} {contact : Contact} :
    book.addEntry next contact = .ok next' ↔ Fits book.limits contact ∧
      next.contains contact.key = false ∧ next.insert contact.key contact = next' := by
  refine bind_ok.trans ?_
  constructor
  · rintro ⟨⟨⟩, hvalid, h⟩
    split_ifs at h with hc
    · cases h
    · exact ⟨validate_ok.mp hvalid, eq_false_of_ne_true hc, Except.ok.inj h⟩
  · rintro ⟨hfits, hc, rfl⟩
    exact ⟨(), validate_ok.mpr hfits, by simp [hc]⟩

theorem addEntries_ok {next next' : TreeMap (Vector UInt8 32) Contact} :
    contacts.foldlM book.addEntry next = .ok next' ↔ (∀ c ∈ contacts, Fits book.limits c) ∧
      (contacts.map Contact.key).Nodup ∧ (∀ c ∈ contacts, next.contains c.key = false) ∧
      contacts.foldl (fun m c => m.insert c.key c) next = next' := by
  induction contacts generalizing next with
  | nil => simp [pure, Except.pure]
  | cons c contacts ih =>
    rw [List.foldlM_cons, List.foldl_cons, List.map_cons, List.nodup_cons, List.forall_mem_cons,
      List.forall_mem_cons]
    -- The keys still to come are new exactly when they are new to both the map and its last entry.
    have hnew : (∀ d ∈ contacts, (next.insert c.key c).contains d.key = false) ↔
        c.key ∉ contacts.map Contact.key ∧ ∀ d ∈ contacts, next.contains d.key = false := by
      simp only [TreeMap.contains_insert, Bool.or_eq_false_iff, List.mem_map, not_exists, not_and]
      constructor
      · exact fun h => ⟨fun d hd he => by simpa [he] using (h d hd).1, fun d hd => (h d hd).2⟩
      · exact fun h d hd => ⟨by simpa using fun he => h.1 d hd he.symm, h.2 d hd⟩
    constructor
    · intro h
      obtain ⟨mid, hfirst, hrest⟩ := bind_ok.mp h
      obtain ⟨hfits, hc, rfl⟩ := addEntry_ok.mp hfirst
      obtain ⟨hall, hd, hins, hnext⟩ := ih.mp hrest
      obtain ⟨hkey, hold⟩ := hnew.mp hins
      exact ⟨⟨hfits, hall⟩, ⟨hkey, hd⟩, ⟨hc, hold⟩, hnext⟩
    · rintro ⟨⟨hfits, hall⟩, ⟨hkey, hd⟩, ⟨hc, hold⟩, hnext⟩
      exact bind_ok.mpr ⟨_, addEntry_ok.mpr ⟨hfits, hc, rfl⟩,
        ih.mpr ⟨hall, hd, hnew.mpr ⟨hkey, hold⟩, hnext⟩⟩

theorem replace_ok : book.replace authority contacts = .ok book' ↔ book.access = authority ∧
    Accepted book.limits contacts ∧ { book with entries := collect Contact.key contacts } = book' := by
  refine bind_ok.trans ?_
  constructor
  · rintro ⟨⟨⟩, hauth, h⟩
    split_ifs at h with hcount
    · cases h
    · obtain ⟨next, hnext, h⟩ := bind_ok.mp h
      obtain ⟨hfits, hd, -, rfl⟩ := addEntries_ok.mp hnext
      exact ⟨authorize_ok.mp hauth, ⟨not_lt.mp hcount, hfits, hd⟩, Except.ok.inj h⟩
  · rintro ⟨hauth, haccepted, rfl⟩
    refine ⟨(), authorize_ok.mpr hauth, ?_⟩
    rw [if_neg haccepted.count.not_gt]
    have hempty : ∀ c ∈ contacts, (∅ : TreeMap (Vector UInt8 32) Contact).contains c.key = false :=
      fun c _ => TreeMap.contains_emptyc
    exact bind_ok.mpr ⟨_, addEntries_ok.mpr ⟨haccepted.fits, haccepted.distinct, hempty, rfl⟩, rfl⟩

theorem snapshot_ok {entries : List Contact} : book.snapshot authority = .ok entries ↔
    book.access = authority ∧ book.entries.toList.map Prod.snd = entries := by
  refine bind_ok.trans ?_
  constructor
  · rintro ⟨⟨⟩, hauth, h⟩
    exact ⟨authorize_ok.mp hauth, Except.ok.inj h⟩
  · rintro ⟨hauth, rfl⟩
    exact ⟨(), authorize_ok.mpr hauth, rfl⟩

end ContactBook

/-- The contacts of a list in the order of their ids. -/
def ordered (contacts : List Contact) : List Contact :=
  (collect Contact.key contacts).toList.map Prod.snd

theorem ordered_perm {limits : Limits} {contacts : List Contact} (h : Accepted limits contacts) :
    (ordered contacts).Perm contacts :=
  FiniteMap.collect_perm h.distinct

theorem ordered_sorted (contacts : List Contact) :
    (ordered contacts).Pairwise fun a b => compare a.key b.key = .lt :=
  (FiniteMap.keyed_collect contacts).sorted

theorem snapshot_replace {limits : Limits} {contacts entries : List Contact} :
    (∃ book, (ContactBook.new 0 limits).1.replace (ContactBook.new 0 limits).2 contacts = .ok book ∧
      book.snapshot (ContactBook.new 0 limits).2 = .ok entries) ↔
      Accepted limits contacts ∧ ordered contacts = entries := by
  constructor
  · rintro ⟨book, hbook, hentries⟩
    obtain ⟨-, haccepted, rfl⟩ := ContactBook.replace_ok.mp hbook
    exact ⟨haccepted, (ContactBook.snapshot_ok.mp hentries).2⟩
  · rintro ⟨haccepted, rfl⟩
    exact ⟨_, ContactBook.replace_ok.mpr ⟨rfl, haccepted, rfl⟩,
      ContactBook.snapshot_ok.mpr ⟨rfl, rfl⟩⟩

/-! A book stays sound under every operation, so its snapshots can be imported again. -/

namespace ContactBook

structure Sound (book : ContactBook) : Prop where
  keyed : Keyed Contact.key book.entries
  fits : ∀ c, book.entries[c.key]? = some c → Fits book.limits c
  bounded : book.entries.size ≤ book.limits.contacts.toNat

variable {book book' : ContactBook} {authority : Nat}

theorem sound_new (allocation : Nat) (limits : Limits) : (new allocation limits).1.Sound where
  keyed := Keyed.empty
  fits c hc := by simp [new] at hc
  bounded := by simp [new]

theorem Sound.accepted (h : book.Sound) :
    Accepted book.limits (book.entries.toList.map Prod.snd) where
  count := by
    rw [List.length_map, TreeMap.length_toList]
    exact h.bounded
  fits c hc := h.fits c (h.keyed.mem_values.mp hc)
  distinct := by
    refine List.pairwise_map.mpr (h.keyed.sorted.imp ?_)
    intro a b hlt he
    rw [he, Std.compare_self] at hlt
    cases hlt

theorem Sound.replace {contacts : List Contact} (h : book.replace authority contacts = .ok book') :
    book'.Sound := by
  obtain ⟨-, haccepted, rfl⟩ := replace_ok.mp h
  have hkeyed : Keyed Contact.key (collect Contact.key contacts) := FiniteMap.keyed_collect contacts
  have hperm := ordered_perm haccepted
  constructor
  case keyed => exact hkeyed
  case fits =>
    exact fun c hc => haccepted.fits c (hperm.mem_iff.mp (hkeyed.mem_values.mpr hc))
  case bounded =>
    have hlength := hperm.length_eq
    rw [ordered, List.length_map, TreeMap.length_toList] at hlength
    exact hlength ▸ haccepted.count

theorem Sound.put {contact : Contact} (hbook : book.Sound)
    (h : book.put authority contact = .ok book') : book'.Sound := by
  obtain ⟨⟨⟩, -, h⟩ := bind_ok.mp h
  obtain ⟨⟨⟩, hvalid, h⟩ := bind_ok.mp h
  split_ifs at h with hfull
  · cases h
  · obtain rfl := Except.ok.inj h
    constructor
    case keyed => exact hbook.keyed.insert contact
    case fits =>
      intro c hc
      by_cases hk : c.key = contact.key
      · rw [hk, TreeMap.getElem?_insert_self] at hc
        exact Option.some.inj hc ▸ validate_ok.mp hvalid
      · rw [TreeMap.getElem?_insert, if_neg (by simpa using Ne.symm hk)] at hc
        exact hbook.fits c hc
    case bounded =>
      have hbounded := hbook.bounded
      have hsize : (book.entries.insert contact.key contact).size =
          if contact.key ∈ book.entries then book.entries.size else book.entries.size + 1 :=
        TreeMap.size_insert
      show (book.entries.insert contact.key contact).size ≤ book.limits.contacts.toNat
      rw [hsize]
      split
      case isTrue => exact hbounded
      case isFalse hnew =>
        rcases not_and_or.mp hfull with hold | hroom
        · exact absurd (TreeMap.mem_iff_contains.mpr (not_not.mp hold)) hnew
        · omega

end ContactBook

/-! Records. -/

/-- A record: the header, and each contact's canonical text on a line of its own. -/
def Records (contacts : List Contact) (record : List Char) : Prop :=
  ∃ lines, List.Forall₂ (fun c line => format c = .ok line) contacts lines ∧
    record = header ++ lines.flatMap (· ++ ['\n'])

namespace FileStore

variable {store : FileStore} {fromStr : List Char → Option IpAddr}

theorem addLines_ok {entries : List Contact} {record record' : List Char}
    (h : entries.foldlM store.addLine record = .ok record') :
    ∃ lines, List.Forall₂ (fun c line => format c = .ok line) entries lines ∧
      record' = record ++ lines.flatMap (· ++ ['\n']) := by
  induction entries generalizing record with
  | nil => exact ⟨[], .nil, by simpa using (Except.ok.inj h).symm⟩
  | cons entry entries ih =>
    rw [List.foldlM_cons] at h
    obtain ⟨mid, hfirst, hrest⟩ := bind_ok.mp h
    obtain ⟨line, hline, hfirst⟩ := bind_ok.mp hfirst
    split_ifs at hfirst
    · cases hfirst
    · obtain rfl := Except.ok.inj hfirst
      obtain ⟨lines, hlines, rfl⟩ := ih hrest
      exact ⟨line :: lines, .cons hline hlines, by simp⟩

theorem replaceContacts_ok {admin : Capability} {contacts : List Contact} {bytes : List UInt8}
    (h : store.replaceContacts admin contacts = .ok bytes) : Accepted store.limits contacts ∧
      bytes.length ≤ store.limits.recordBytes.toNat ∧
      ∃ record, Records (ordered contacts) record ∧ bytes = Json.utf8 record := by
  obtain ⟨⟨⟩, -, h⟩ := bind_ok.mp h
  obtain ⟨book, hbook, h⟩ := bind_ok.mp h
  obtain ⟨entries, hentries, h⟩ := bind_ok.mp h
  obtain ⟨haccepted, rfl⟩ := snapshot_replace.mp ⟨book, hbook, hentries⟩
  obtain ⟨record, hrecord, h⟩ := bind_ok.mp h
  rw [writeRecord] at h
  split_ifs at h with hsize
  · cases h
  · exact ⟨haccepted, Except.ok.inj h ▸ not_lt.mp hsize, record, addLines_ok hrecord,
      (Except.ok.inj h).symm⟩

theorem replaceContacts_nil {admin : Capability}
    (hauth : store.authority.checkAdministration admin store.limits.recordBytes.toNat = .ok ())
    (hsize : (Json.utf8 header).length ≤ store.limits.recordBytes.toNat) :
    store.replaceContacts admin [] = .ok (Json.utf8 header) := by
  have hnil : Accepted store.limits [] := ⟨Nat.zero_le _, by simp, List.nodup_nil⟩
  obtain ⟨book, hbook, hentries⟩ := snapshot_replace.mpr ⟨hnil, rfl⟩
  refine bind_ok.mpr ⟨(), hauth, bind_ok.mpr ⟨book, hbook, bind_ok.mpr ⟨_, hentries, ?_⟩⟩⟩
  exact if_neg (not_lt.mpr hsize)

theorem readBytes_ok {file bytes : List UInt8} {maximum : Nat} :
    readBytes file maximum = .ok bytes ↔
      file.length ≤ maximum ∧ maximum < usizeMax ∧ file = bytes := by
  rw [readBytes, checkedAdd]
  by_cases hsize : file.length ≤ maximum
  · rw [if_neg hsize.not_gt]
    by_cases hroom : maximum + 1 ≤ usizeMax
    · have htake : file.take (maximum + 1) = file := List.take_of_length_le (by omega)
      simp [htake, hsize, hsize.not_gt, Nat.lt_of_succ_le hroom]
    · simp [refuse, Nat.not_lt.mpr (Nat.lt_succ_iff.mp (not_le.mp hroom))]
  · simp [if_pos (not_le.mp hsize), refuse, hsize]

theorem readLine_ok {contacts contacts' : List Contact} {line : List Char} :
    store.readLine fromStr contacts line = .ok contacts' ↔
      contacts.length < store.limits.contacts.toNat ∧ ∃ entry,
        parse fromStr line store.limits.textBytes.toNat = .ok entry ∧ format entry = .ok line ∧
        contacts' = contacts ++ [entry] := by
  rw [readLine]
  by_cases hcount : contacts.length < store.limits.contacts.toNat
  · rw [if_neg (not_le.mpr hcount), bind_ok]
    simp only [hcount, true_and]
    refine exists_congr fun entry => and_congr_right fun _ => bind_ok.trans ?_
    constructor
    · rintro ⟨text, hformat, h⟩
      split_ifs at h with hne
      · cases h
      · obtain rfl := not_not.mp hne
        exact ⟨hformat, (Except.ok.inj h).symm⟩
    · rintro ⟨hformat, rfl⟩
      exact ⟨line, hformat, by simp⟩
  · simp [if_pos (not_lt.mp hcount), refuse, hcount]

theorem readLines_ok {lines : List (List Char)} {contacts : List Contact}
    (h : lines.foldlM (store.readLine fromStr) [] = .ok contacts) :
    List.Forall₂ (fun c line => format c = .ok line) contacts lines := by
  refine foldlM_ok (fun passed contacts =>
    List.Forall₂ (fun c line => format c = .ok line) contacts passed) h .nil ?_
  intro passed line rest contacts contacts' _ hpassed hline
  obtain ⟨-, entry, -, hformat, rfl⟩ := readLine_ok.mp hline
  exact List.rel_append hpassed (.cons hformat .nil)

theorem readLines_complete {lines : List (List Char)} {before entries : List Contact}
    (h : List.Forall₂ (fun c line => parse fromStr line store.limits.textBytes.toNat = .ok c ∧
      format c = .ok line) entries lines)
    (hcount : before.length + entries.length ≤ store.limits.contacts.toNat) :
    lines.foldlM (store.readLine fromStr) before = .ok (before ++ entries) := by
  induction h generalizing before with
  | nil => rw [List.append_nil]; rfl
  | @cons entry line entries lines hline hlines ih =>
    rw [List.length_cons] at hcount
    have hfirst : store.readLine fromStr before line = .ok (before ++ [entry]) :=
      readLine_ok.mpr ⟨by omega, entry, hline.1, hline.2, rfl⟩
    rw [List.foldlM_cons]
    refine bind_ok.mpr ⟨_, hfirst, ?_⟩
    rw [ih (by rw [List.length_append, List.length_singleton]; omega), List.append_assoc,
      List.singleton_append]

theorem dropHeader {text body : List Char} :
    text.dropPrefix? header = some body ↔ text = header ++ body := by
  rw [List.dropPrefix?_eq_some_iff]
  simp

theorem ends_newline {lines : List (List Char)} {c : Char}
    (h : (lines.flatMap (· ++ ['\n'])).getLast? = some c) : c = '\n' := by
  rcases List.eq_nil_or_concat lines with rfl | ⟨init, last, rfl⟩
  · cases h
  · simpa using h.symm

theorem readContacts_ok {admin : Capability} {file : List UInt8} {result : List Contact} :
    store.readContacts fromStr admin file = .ok result ↔
      store.authority.checkAdministration admin store.limits.recordBytes.toNat = .ok () ∧
      file.length ≤ store.limits.recordBytes.toNat ∧
      store.limits.recordBytes.toNat < usizeMax ∧
      ∃ body contacts, file = Json.utf8 (header ++ body) ∧
        (∀ c, body.getLast? = some c → c = '\n') ∧
        (terminated '\n' body).foldlM (store.readLine fromStr) [] = .ok contacts ∧
        Accepted store.limits contacts ∧ ordered contacts = result := by
  have hends : ∀ body : List Char, (∀ c, body.getLast? = some c → c = '\n') ↔
      ¬ (body ≠ [] ∧ body.getLast? ≠ some '\n') := by
    intro body
    rcases List.eq_nil_or_concat body with rfl | ⟨init, last, rfl⟩ <;> simp
  constructor
  · intro h
    obtain ⟨⟨⟩, hauth, h⟩ := bind_ok.mp h
    obtain ⟨bytes, hbytes, h⟩ := bind_ok.mp h
    obtain ⟨hsize, hroom, rfl⟩ := readBytes_ok.mp hbytes
    obtain ⟨text, htext, h⟩ := bind_ok.mp h
    obtain ⟨body, hbody, h⟩ := bind_ok.mp h
    have hfile := Json.fromUTF8_iff.mp (need_ok.mp htext)
    have hheader := dropHeader.mp (need_ok.mp hbody)
    split_ifs at h with hlast
    · cases h
    · obtain ⟨contacts, hcontacts, h⟩ := bind_ok.mp h
      exact ⟨hauth, hsize, hroom, body, contacts, hheader ▸ hfile, (hends body).mpr hlast, hcontacts,
        snapshot_replace.mp (bind_ok.mp h)⟩
  · rintro ⟨hauth, hsize, hroom, body, contacts, hfile, hlast, hcontacts, hbook⟩
    refine bind_ok.mpr ⟨(), hauth, ?_⟩
    refine bind_ok.mpr ⟨file, readBytes_ok.mpr ⟨hsize, hroom, rfl⟩, ?_⟩
    refine bind_ok.mpr ⟨header ++ body, need_ok.mpr (Json.fromUTF8_iff.mpr hfile), ?_⟩
    refine bind_ok.mpr ⟨body, need_ok.mpr (dropHeader.mpr rfl), ?_⟩
    rw [if_neg ((hends body).mp hlast)]
    exact bind_ok.mpr ⟨contacts, hcontacts, bind_ok.mpr (snapshot_replace.mpr hbook)⟩

end FileStore

/-! Snapshots survive storage. -/

theorem not_mem_lines {contacts : List Contact} {lines : List (List Char)}
    (h : List.Forall₂ (fun c line => format c = .ok line) contacts lines) :
    ∀ line ∈ lines, '\n' ∉ line := by
  induction h with
  | nil => nofun
  | cons hline _ ih =>
    exact List.forall_mem_cons.mpr
      ⟨not_mem_format hline (by decide +kernel) (by decide) (by decide), ih⟩

theorem parse_lines {fromStr : List Char → Option IpAddr} {limits : Limits} {contacts : List Contact}
    {lines : List (List Char)}
    (h : List.Forall₂ (fun c line => format c = .ok line) contacts lines)
    (hback : ∀ c ∈ contacts, ReadsBack fromStr c) (hfits : ∀ c ∈ contacts, Fits limits c) :
    List.Forall₂ (fun c line => parse fromStr line limits.textBytes.toNat = .ok c ∧
      format c = .ok line) contacts lines := by
  induction h with
  | nil => exact .nil
  | cons hline _ ih =>
    obtain ⟨hfirst, hrest⟩ := List.forall_mem_cons.mp hback
    obtain ⟨⟨text, htext, hsize⟩, hfits⟩ := List.forall_mem_cons.mp hfits
    obtain rfl := Except.ok.inj (hline.symm.trans htext)
    exact .cons ⟨parse_format hline hfirst hsize, hline⟩ (ih hrest hfits)

/-- What the writer and the reader of a store owe each other. -/
structure SnapshotsSurvive (fromStr : List Char → Option IpAddr) (store : FileStore) : Prop where
  /-- What is written is read back, in ascending order of the ids. -/
  survives : ∀ admin reader contacts bytes, (∀ c ∈ contacts, ReadsBack fromStr c) →
    store.replaceContacts admin contacts = .ok bytes →
    store.authority.checkAdministration reader store.limits.recordBytes.toNat = .ok () →
    ∃ result, store.readContacts fromStr reader bytes = .ok result ∧ result.Perm contacts ∧
      result.Pairwise fun a b => compare a.key b.key = .lt
  roundTrip : ∀ contact text, ReadsBack fromStr contact → format contact = .ok text →
    ∀ bound, size text ≤ bound → parse fromStr text bound = .ok contact
  /-- Only the canonical lines of distinct contacts are read. -/
  canonical : ∀ reader file result, store.readContacts fromStr reader file = .ok result →
    ∃ contacts record, contacts.Perm result ∧ (contacts.map Contact.key).Nodup ∧
      Records contacts record ∧ file = Json.utf8 record

/-- Snapshots survive exactly if the record limit of a store that an administrator may use
has a successor. -/
theorem snapshots_survive (fromStr : List Char → Option IpAddr) (store : FileStore) :
    SnapshotsSurvive fromStr store ↔ ∀ reader,
      store.authority.checkAdministration reader store.limits.recordBytes.toNat = .ok () →
      store.limits.recordBytes.toNat < usizeMax := by
  refine ⟨fun h reader hauth => ?_, fun hroom => ?_⟩
  · by_contra hfull
    have hsize : (Json.utf8 header).length ≤ store.limits.recordBytes.toNat :=
      le_trans (by decide) (not_lt.mp hfull)
    obtain ⟨result, hread, -⟩ := h.survives reader reader [] _ (by simp)
      (FileStore.replaceContacts_nil hauth hsize) hauth
    obtain ⟨-, -, hbelow, -⟩ := FileStore.readContacts_ok.mp hread
    exact hfull hbelow
  constructor
  case survives =>
    intro admin reader contacts bytes hback hwrite hauth
    obtain ⟨haccepted, hsize, record, ⟨lines, hlines, rfl⟩, rfl⟩ := FileStore.replaceContacts_ok hwrite
    have hperm := ordered_perm haccepted
    have hentries := haccepted.of_perm hperm
    have hparse := parse_lines hlines (fun c hc => hback c (hperm.mem_iff.mp hc)) hentries.fits
    have hread : (terminated '\n' (lines.flatMap (· ++ ['\n']))).foldlM (store.readLine fromStr) [] =
        .ok (ordered contacts) := by
      rw [terminated_lines (not_mem_lines hlines)]
      exact FileStore.readLines_complete hparse (by rw [List.length_nil, Nat.zero_add]; exact hentries.count)
    refine ⟨_, FileStore.readContacts_ok.mpr ⟨hauth, hsize, hroom reader hauth, _, _, rfl, ?_,
      hread, hentries, rfl⟩, (ordered_perm hentries).trans hperm, ordered_sorted _⟩
    exact fun c => FileStore.ends_newline
  case roundTrip => exact fun contact text hback h bound hsize => parse_format h hback hsize
  case canonical =>
    intro reader file result h
    obtain ⟨-, -, -, body, contacts, rfl, hlast, hcontacts, haccepted, rfl⟩ :=
      FileStore.readContacts_ok.mp h
    refine ⟨contacts, _, (ordered_perm haccepted).symm, haccepted.distinct,
      ⟨_, FileStore.readLines_ok hcontacts, rfl⟩, ?_⟩
    rw [lines_terminated hlast]

/-! Two stores, one with room above its record limit and one without. -/

def administrator : Capability := { owner := 0, identity := none, maximumBytes := 0xFFFFFFFFFFFFFFFF }

def storeWith (recordBytes : UInt64) (h : recordBytes ≠ 0) : FileStore where
  authority := { allocation := 0, live := true }
  limits := {
    textBytes := 256, contacts := 16, signingBytes := 1024, envelopeBytes := 2048, recordBytes
    textBytes_ge := by decide
    contacts_ne := by decide
    signingBytes_ne := by decide
    envelopeBytes_ge := by decide
    recordBytes_ne := h }

def loopback : Contact where
  expectedId := ⟨Vector.replicate 32 0⟩
  endpoint := some (.v4 ⟨#[127, 0, 0, 1], rfl⟩ 1)

def readLoopback (text : List Char) : Option IpAddr :=
  if text = ['1', '2', '7', '.', '0', '.', '0', '.', '1'] then some (.v4 ⟨#[127, 0, 0, 1], rfl⟩)
  else none

theorem snapshots_survive_loopback :
    SnapshotsSurvive readLoopback (storeWith 4096 (by decide)) ∧ ReadsBack readLoopback loopback ∧
      ((storeWith 4096 (by decide)).replaceContacts administrator [loopback]).toOption.isSome := by
  refine ⟨(snapshots_survive _ _).mpr fun _ _ => by decide, ?_, by decide +kernel⟩
  rintro endpoint ⟨⟩
  decide +kernel

/-- With the largest record limit the bound of the reader has no successor, and a snapshot that
was written is never read. -/
theorem largest_record_unreadable :
    Limits.new 256 16 1024 2048 0xFFFFFFFFFFFFFFFF =
      .ok (storeWith 0xFFFFFFFFFFFFFFFF (by decide)).limits ∧
    (storeWith 0xFFFFFFFFFFFFFFFF (by decide)).replaceContacts administrator [] =
      .ok (Json.utf8 header) ∧
    (storeWith 0xFFFFFFFFFFFFFFFF (by decide)).readContacts readLoopback administrator
      (Json.utf8 header) = .error (.refused .resourceLimit) ∧
    ¬ SnapshotsSurvive readLoopback (storeWith 0xFFFFFFFFFFFFFFFF (by decide)) := by
  have hwrite : (storeWith 0xFFFFFFFFFFFFFFFF (by decide)).replaceContacts administrator [] =
      .ok (Json.utf8 header) := rfl
  refine ⟨rfl, hwrite, rfl, fun h => ?_⟩
  obtain ⟨result, hread, -⟩ := h.survives administrator administrator [] _ nofun hwrite rfl
  cases hread

/-! Runs of a book. -/

namespace ContactBook

variable {book : ContactBook} {authority : Nat}

/-- A call that fails changes nothing. -/
inductive Reaches : ContactBook → Prop
  | start (allocation : Nat) (limits : Limits) : Reaches (new allocation limits).1
  | replaced {book book' : ContactBook} {authority : Nat} {contacts : List Contact}
      (h : Reaches book) (hrun : book.replace authority contacts = .ok book') : Reaches book'
  | put {book book' : ContactBook} {authority : Nat} {contact : Contact}
      (h : Reaches book) (hrun : book.put authority contact = .ok book') : Reaches book'

theorem sound_reaches (h : Reaches book) : book.Sound := by
  induction h with
  | start allocation limits => exact sound_new allocation limits
  | replaced _ hrun _ => exact Sound.replace hrun
  | put _ hrun ih => exact ih.put hrun

theorem Sound.ordered_eq (h : book.Sound) :
    ordered (book.entries.toList.map Prod.snd) = book.entries.toList.map Prod.snd := by
  apply (ordered_perm h.accepted).eq_of_pairwise ?_ (ordered_sorted _) h.keyed.sorted
  intro a b _ _ hab hba
  rw [Std.OrientedOrd.eq_swap, hab] at hba
  cases hba

theorem Sound.collect_eq (h : book.Sound) (k : Vector UInt8 32) :
    (collect Contact.key (book.entries.toList.map Prod.snd))[k]? = book.entries[k]? := by
  have hcopy : Keyed Contact.key (collect Contact.key (book.entries.toList.map Prod.snd)) :=
    FiniteMap.keyed_collect _
  apply Option.ext
  intro c
  have hsame := (ordered_perm h.accepted).mem_iff (a := c)
  rw [ordered, hcopy.mem_values, h.keyed.mem_values] at hsame
  constructor
  · intro hc
    have hkey := hcopy k c hc
    exact hkey ▸ hsame.mp (hkey ▸ hc)
  · intro hc
    have hkey := h.keyed k c hc
    exact hkey ▸ hsame.mpr (hkey ▸ hc)

/-- What a book hands out can be put into another, which then has the same contacts. -/
theorem snapshot_imports {entries : List Contact} (h : Reaches book)
    (hrun : book.snapshot authority = .ok entries) (allocation : Nat) :
    entries.length ≤ book.limits.contacts.toNat ∧
      ∃ copy, (new allocation book.limits).1.replace allocation entries = .ok copy ∧
        copy.snapshot allocation = .ok entries ∧
        ∀ id, copy.get allocation id = book.get authority id := by
  have hsound := sound_reaches h
  obtain ⟨rfl, rfl⟩ := snapshot_ok.mp hrun
  refine ⟨hsound.accepted.count, _, replace_ok.mpr ⟨rfl, hsound.accepted, rfl⟩,
    snapshot_ok.mpr ⟨rfl, hsound.ordered_eq⟩, fun id => ?_⟩
  simp [get, authorize, new, hsound.collect_eq]

/-- Two contacts, given out of order, and then a new endpoint for the second. -/
theorem snapshot_imports_loopback : ∃ (book copy : ContactBook) (entries : List Contact),
    Reaches book ∧ entries.map (fun c => (c.key[0], c.endpoint.isSome)) = [(0, true), (1, true)] ∧
      book.snapshot 0 = .ok entries ∧ copy.snapshot 1 = .ok entries ∧
      ∀ id, copy.get 1 id = book.get 0 id := by
  let far : Contact := ⟨⟨Vector.replicate 32 1⟩, none⟩
  have hruns : (((new 0 (storeWith 4096 (by decide)).limits).1.replace 0
      [far, loopback]).toOption.bind fun book =>
        (book.put 0 { far with endpoint := loopback.endpoint }).toOption.bind fun book =>
          (book.snapshot 0).toOption.map fun entries =>
            entries.map fun c => (c.key[0], c.endpoint.isSome)) =
      some [(0, true), (1, true)] := by decide +kernel
  obtain ⟨first, hfirst, hruns⟩ := Option.bind_eq_some_iff.mp hruns
  obtain ⟨book, hbook, hruns⟩ := Option.bind_eq_some_iff.mp hruns
  obtain ⟨entries, hentries, hshown⟩ := Option.map_eq_some_iff.mp hruns
  have hreaches : Reaches book := .put (.replaced (.start 0 _) (Outcome.toOption_some.mp hfirst))
    (Outcome.toOption_some.mp hbook)
  have hsnapshot := Outcome.toOption_some.mp hentries
  obtain ⟨-, copy, -, hcopy⟩ := snapshot_imports hreaches hsnapshot 1
  exact ⟨book, copy, entries, hreaches, hshown, hsnapshot, hcopy⟩

end ContactBook

end TalkSphere.Contacts
