import TalkSphere.BigEndian
import TalkSphere.Control
import TalkSphere.Prepared

/-! Stored publications. A record is written as a header, the publisher, the board and a count
of definitions, each field behind its length, and read back within the same limits. -/

namespace TalkSphere.Board

open Outcome (bind_ok)
open Std (TreeMap)

structure Record where
  publisher : IdentityId
  board : List UInt8
  definitions : TreeMap String (List UInt8)

namespace Record

def fromPrepared (p : Prepared) : Record where
  publisher := p.publisher
  board := p.board.document.source
  definitions := p.definitions.map fun _ d => d.document.source

def prepare (r : Record) (limits : Limits) (caps : Capabilities) : Except Stop Prepared :=
  Prepared.new r.publisher r.board r.definitions limits caps

/-- Records are equal when their maps have the same entries. -/
structure Same (r r' : Record) : Prop where
  publisher : r.publisher = r'.publisher
  board : r.board = r'.board
  definitions : r.definitions.Equiv r'.definitions

theorem Same.refl (r : Record) : r.Same r := ⟨rfl, rfl, .rfl⟩

theorem Same.symm {r r' : Record} (h : r.Same r') : r'.Same r :=
  ⟨h.publisher.symm, h.board.symm, h.definitions.symm⟩

theorem Same.trans {a b c : Record} (h : a.Same b) (h' : b.Same c) : a.Same c :=
  ⟨h.publisher.trans h'.publisher, h.board.trans h'.board, h.definitions.trans h'.definitions⟩

end Record

/-! A preparation depends on the definitions only as a map. -/

section

variable {publisher : IdentityId} {board : List UInt8}
  {definitions definitions' : TreeMap String (List UInt8)} {limits : Limits} {caps : Capabilities}
  {p : Prepared}

theorem Prepared.new_congr (h : definitions.Equiv definitions') :
    new publisher board definitions limits caps = new publisher board definitions' limits caps := by
  have hstep : addDefinition definitions limits = addDefinition definitions' limits := by
    funext s e
    rw [addDefinition, addDefinition, h.getElem?_eq]
  rw [new, new, h.size_eq, hstep, totalBytes, totalBytes, h.toList_eq]

theorem Record.Same.prepare_eq {r r' : Record} (h : r.Same r') :
    r.prepare limits caps = r'.prepare limits caps := by
  rw [prepare, prepare, h.publisher, h.board, Prepared.new_congr h.definitions]

theorem Prepared.fromPrepared_equiv
    (h : Prepared.new publisher board definitions limits caps = .ok p) :
    (Record.fromPrepared p).definitions.Equiv definitions := by
  refine FiniteMap.equiv_of_lookup_eq fun id => ?_
  rw [← (Prepared.new_sources h).2 id, Record.fromPrepared, TreeMap.getElem?_map]

/-- What was prepared can be prepared again, and nothing changes. -/
theorem Record.prepare_fromPrepared
    (h : Prepared.new publisher board definitions limits caps = .ok p) :
    (fromPrepared p).prepare limits caps = .ok p := by
  have hpublisher : p.publisher = publisher := (Prepared.new_ok h).2.2.2.2.2.2.2.2
  rw [prepare, Prepared.new_congr (Prepared.fromPrepared_equiv h), fromPrepared, hpublisher,
    (Prepared.new_sources h).1, h]

end

theorem Record.prepare_same {r : Record} {limits : Limits} {caps : Capabilities} {p : Prepared}
    (h : r.prepare limits caps = .ok p) : (Record.fromPrepared p).Same r where
  publisher := (Prepared.new_ok h).2.2.2.2.2.2.2.2
  board := (Prepared.new_sources h).1
  definitions := Prepared.fromPrepared_equiv h

namespace RecordCodec

def magic : List UInt8 := [0x54, 0x53, 0x42, 0x4F, 0x41, 0x52, 0x44, 0x31]

def maximum (limits : Limits) : Except Stop Nat := need .limit limits.envelope

def put (out bytes : List UInt8) (maximum : Nat) : Except Stop (List UInt8) :=
  if bytes.length > maximum then refuse .limit
  else if bytes.length > u32Max then refuse .limit
  else .ok (out ++ (BigEndian.encode 4 bytes.length ++ bytes))

def putEntry (limits : Limits) (out : List UInt8) (entry : String × List UInt8) :
    Except Stop (List UInt8) := do
  let out ← put out (utf8 entry.1) limits.stringBytes
  put out entry.2 limits.documentBytes

def encode (r : Record) (limits : Limits) : Except Stop (List UInt8) := do
  lift limits.validate
  if r.definitions.size > limits.definitions then refuse .limit
  else
    let total ← Prepared.totalBytes r.board r.definitions
    if total > limits.publicationBytes then refuse .limit
    else
      let out ← put (magic ++ r.publisher.bytes.toList) r.board limits.documentBytes
      if r.definitions.size > u32Max then refuse .limit
      else
        let out ← r.definitions.toList.foldlM (putEntry limits)
          (out ++ BigEndian.encode 4 r.definitions.size)
        let maximum ← maximum limits
        if out.length > maximum then refuse .limit else .ok out

def take (rest : List UInt8) (n : Nat) : Except Stop (List UInt8 × List UInt8) :=
  if rest.length < n then refuse .invalid else .ok (rest.take n, rest.drop n)

def number (rest : List UInt8) : Except Stop (Nat × List UInt8) := do
  let (bytes, rest) ← take rest 4
  .ok (BigEndian.decode bytes, rest)

def field (rest : List UInt8) (maximum : Nat) : Except Stop (List UInt8 × List UInt8) := do
  let (n, rest) ← number rest
  if n > maximum then refuse .limit else take rest n

/-- The loop over the definitions: what is left to read, and what was read. -/
structure Reading where
  rest : List UInt8
  definitions : TreeMap String (List UInt8)
  total : Nat

def readEntry (limits : Limits) (s : Reading) : Except Stop Reading := do
  let (id, rest) ← field s.rest limits.stringBytes
  let id ← need .invalid (String.fromUTF8? ⟨id.toArray⟩)
  let (d, rest) ← field rest limits.documentBytes
  let total ← need .limit (checkedAdd s.total d.length)
  if total > limits.publicationBytes then refuse .limit
  else if s.definitions.contains id then refuse .invalid
  else .ok ⟨rest, s.definitions.insert id d, total⟩

def readEntries (limits : Limits) : Nat → Reading → Except Stop Reading
  | 0, s => .ok s
  | n + 1, s => do readEntries limits n (← readEntry limits s)

def readPublisher (bytes : List UInt8) : Option IdentityId :=
  if h : bytes.toArray.size = 32 then some ⟨⟨bytes.toArray, h⟩⟩ else none

def decode (bytes : List UInt8) (limits : Limits) : Except Stop Record := do
  lift limits.validate
  let maximum ← maximum limits
  if bytes.length > maximum then refuse .limit
  else
    let (head, rest) ← take bytes 8
    if head ≠ magic then refuse .invalid
    else
      let (publisher, rest) ← take rest 32
      let publisher ← need .invalid (readPublisher publisher)
      let (board, rest) ← field rest limits.documentBytes
      let (count, rest) ← number rest
      if count > limits.definitions then refuse .limit
      else
        let s ← readEntries limits count ⟨rest, ∅, board.length⟩
        if s.rest ≠ [] then refuse .invalid else .ok ⟨publisher, board, s.definitions⟩

/-! The bytes of a record. -/

def prefixed (bytes : List UInt8) : List UInt8 := BigEndian.encode 4 bytes.length ++ bytes

def entryBytes (entry : String × List UInt8) : List UInt8 :=
  prefixed (utf8 entry.1) ++ prefixed entry.2

def layout (r : Record) : List UInt8 :=
  magic ++ r.publisher.bytes.toList ++ prefixed r.board ++ BigEndian.encode 4 r.definitions.size ++
    r.definitions.toList.flatMap entryBytes

structure Fitting (r : Record) (limits : Limits) : Prop where
  policy : limits.validate = .ok ()
  count : r.definitions.size ≤ limits.definitions ∧ r.definitions.size ≤ u32Max
  total : ∃ n, Prepared.totalBytes r.board r.definitions = .ok n ∧ n ≤ limits.publicationBytes
  board : r.board.length ≤ limits.documentBytes
  entries : ∀ e ∈ r.definitions.toList,
    (utf8 e.1).length ≤ limits.stringBytes ∧ e.2.length ≤ limits.documentBytes
  envelope : ∃ n, limits.envelope = some n ∧ (layout r).length ≤ n

section

variable {limits : Limits} {r : Record}

theorem documentBytes_u32 (h : limits.validate = .ok ()) : limits.documentBytes ≤ u32Max :=
  (Limits.validate_ok.mp h).documentBytes.trans (by decide)

theorem stringBytes_u32 (h : limits.validate = .ok ()) : limits.stringBytes ≤ u32Max :=
  (Limits.validate_ok.mp h).stringBytes.trans (documentBytes_u32 h)

theorem put_ok {out out' bytes : List UInt8} {maximum : Nat} (h : maximum ≤ u32Max) :
    put out bytes maximum = .ok out' ↔ bytes.length ≤ maximum ∧ out ++ prefixed bytes = out' := by
  rw [put, guard_ok, guard_ok, Except.ok.injEq, not_lt, not_lt]
  constructor
  · rintro ⟨hsize, -, rfl⟩
    exact ⟨hsize, rfl⟩
  · rintro ⟨hsize, rfl⟩
    exact ⟨hsize, hsize.trans h, rfl⟩

theorem putEntry_ok (hlimits : limits.validate = .ok ()) {out out' : List UInt8}
    {e : String × List UInt8} : putEntry limits out e = .ok out' ↔
      ((utf8 e.1).length ≤ limits.stringBytes ∧ e.2.length ≤ limits.documentBytes) ∧
        out ++ entryBytes e = out' := by
  have hstring := stringBytes_u32 hlimits
  have hdocument := documentBytes_u32 hlimits
  rw [putEntry, bind_ok]
  constructor
  · rintro ⟨mid, hmid, hout⟩
    obtain ⟨hid, rfl⟩ := (put_ok hstring).mp hmid
    obtain ⟨hd, rfl⟩ := (put_ok hdocument).mp hout
    exact ⟨⟨hid, hd⟩, by rw [entryBytes, List.append_assoc]⟩
  · rintro ⟨⟨hid, hd⟩, rfl⟩
    exact ⟨_, (put_ok hstring).mpr ⟨hid, rfl⟩,
      (put_ok hdocument).mpr ⟨hd, by rw [entryBytes, List.append_assoc]⟩⟩

theorem putEntries_ok (hlimits : limits.validate = .ok ()) {entries : List (String × List UInt8)}
    {out out' : List UInt8} : entries.foldlM (putEntry limits) out = .ok out' ↔
      (∀ e ∈ entries, (utf8 e.1).length ≤ limits.stringBytes ∧ e.2.length ≤ limits.documentBytes) ∧
        out ++ entries.flatMap entryBytes = out' := by
  induction entries generalizing out with
  | nil => simp [pure, Except.pure]
  | cons e entries ih =>
    rw [List.foldlM_cons, bind_ok, List.forall_mem_cons, List.flatMap_cons, ← List.append_assoc]
    constructor
    · rintro ⟨mid, hfirst, hrest⟩
      obtain ⟨he, rfl⟩ := (putEntry_ok hlimits).mp hfirst
      obtain ⟨hentries, hout⟩ := ih.mp hrest
      exact ⟨⟨he, hentries⟩, hout⟩
    · rintro ⟨⟨he, hentries⟩, hout⟩
      exact ⟨_, (putEntry_ok hlimits).mpr ⟨he, rfl⟩, ih.mpr ⟨hentries, hout⟩⟩

theorem encode_ok {bytes : List UInt8} :
    encode r limits = .ok bytes ↔ Fitting r limits ∧ layout r = bytes := by
  rw [encode]
  constructor
  · intro h
    obtain ⟨⟨⟩, hvalid, h⟩ := bind_ok.mp h
    have hvalid := lift_ok.mp hvalid
    obtain ⟨hcount, h⟩ := guard_ok.mp h
    obtain ⟨total, htotal, h⟩ := bind_ok.mp h
    obtain ⟨hbudget, h⟩ := guard_ok.mp h
    obtain ⟨out, hput, h⟩ := bind_ok.mp h
    obtain ⟨hboard, rfl⟩ := (put_ok (documentBytes_u32 hvalid)).mp hput
    obtain ⟨hnumber, h⟩ := guard_ok.mp h
    obtain ⟨out, hputs, h⟩ := bind_ok.mp h
    obtain ⟨hentries, rfl⟩ := (putEntries_ok hvalid).mp hputs
    obtain ⟨n, hn, h⟩ := bind_ok.mp h
    obtain ⟨hsize, h⟩ := guard_ok.mp h
    refine ⟨⟨hvalid, ⟨not_lt.mp hcount, not_lt.mp hnumber⟩, ⟨total, htotal, not_lt.mp hbudget⟩, hboard,
      hentries, n, need_ok.mp hn, not_lt.mp hsize⟩, Except.ok.inj h⟩
  · rintro ⟨⟨hvalid, ⟨hcount, hnumber⟩, ⟨total, htotal, hbudget⟩, hboard, hentries, n, hn, hsize⟩, rfl⟩
    refine bind_ok.mpr ⟨(), lift_ok.mpr hvalid, guard_ok.mpr ⟨not_lt.mpr hcount, ?_⟩⟩
    refine bind_ok.mpr ⟨total, htotal, guard_ok.mpr ⟨not_lt.mpr hbudget, ?_⟩⟩
    refine bind_ok.mpr ⟨_, (put_ok (documentBytes_u32 hvalid)).mpr ⟨hboard, rfl⟩, ?_⟩
    refine guard_ok.mpr ⟨not_lt.mpr hnumber, ?_⟩
    refine bind_ok.mpr ⟨_, (putEntries_ok hvalid).mpr ⟨hentries, rfl⟩, ?_⟩
    exact bind_ok.mpr ⟨n, need_ok.mpr hn, guard_ok.mpr ⟨not_lt.mpr hsize, rfl⟩⟩

/-! Reading back. -/

theorem take_append {bytes : List UInt8} {n : Nat} (h : bytes.length = n) (rest : List UInt8) :
    take (bytes ++ rest) n = .ok (bytes, rest) := by
  subst h
  rw [take, if_neg (by simp), List.take_left, List.drop_left]

theorem number_append {n : Nat} (h : n ≤ u32Max) (rest : List UInt8) :
    number (BigEndian.encode 4 n ++ rest) = .ok (n, rest) := by
  have hsmall : n < 256 ^ 4 := by
    rw [u32Max] at h
    omega
  refine bind_ok.mpr ⟨_, take_append (BigEndian.encode_length 4 n) rest, ?_⟩
  dsimp only
  rw [BigEndian.decode_encode hsmall]

theorem field_append {bytes : List UInt8} {maximum : Nat} (h : bytes.length ≤ maximum)
    (hmax : maximum ≤ u32Max) (rest : List UInt8) :
    field (prefixed bytes ++ rest) maximum = .ok (bytes, rest) := by
  rw [prefixed, List.append_assoc]
  refine bind_ok.mpr ⟨_, number_append (h.trans hmax) _, ?_⟩
  exact guard_ok.mpr ⟨not_lt.mpr h, take_append rfl rest⟩

theorem readEntry_append (hlimits : limits.validate = .ok ()) {e : String × List UInt8}
    (he : (utf8 e.1).length ≤ limits.stringBytes ∧ e.2.length ≤ limits.documentBytes)
    {definitions : TreeMap String (List UInt8)} (hnew : definitions.contains e.1 = false)
    {total : Nat} (hbudget : total + e.2.length ≤ limits.publicationBytes)
    (husize : limits.publicationBytes ≤ usizeMax) (rest : List UInt8) :
    readEntry limits ⟨entryBytes e ++ rest, definitions, total⟩ =
      .ok ⟨rest, definitions.insert e.1 e.2, total + e.2.length⟩ := by
  have hadd : checkedAdd total e.2.length = some (total + e.2.length) :=
    checkedAdd_some.mpr ⟨rfl, hbudget.trans husize⟩
  rw [entryBytes, List.append_assoc]
  refine bind_ok.mpr ⟨_, field_append he.1 (stringBytes_u32 hlimits) _, ?_⟩
  refine bind_ok.mpr ⟨e.1, need_ok.mpr (fromUTF8_utf8 e.1), ?_⟩
  refine bind_ok.mpr ⟨_, field_append he.2 (documentBytes_u32 hlimits) _, ?_⟩
  refine bind_ok.mpr ⟨_, need_ok.mpr hadd, guard_ok.mpr ⟨not_lt.mpr hbudget, ?_⟩⟩
  exact guard_ok.mpr ⟨by rw [hnew]; nofun, rfl⟩

theorem readEntries_append (hlimits : limits.validate = .ok ())
    (husize : limits.publicationBytes ≤ usizeMax) {entries : List (String × List UInt8)}
    (hentries : ∀ e ∈ entries,
      (utf8 e.1).length ≤ limits.stringBytes ∧ e.2.length ≤ limits.documentBytes)
    (hdistinct : (entries.map Prod.fst).Nodup) (rest : List UInt8) (total : Nat)
    (definitions : TreeMap String (List UInt8))
    (hnew : ∀ e ∈ entries, definitions.contains e.1 = false)
    (hbudget : total + (entries.map fun e => e.2.length).sum ≤ limits.publicationBytes) :
    readEntries limits entries.length ⟨entries.flatMap entryBytes ++ rest, definitions, total⟩ =
      .ok ⟨rest, entries.foldl (fun m e => m.insert e.1 e.2) definitions,
        total + (entries.map fun e => e.2.length).sum⟩ := by
  induction entries generalizing total definitions with
  | nil => simp [readEntries]
  | cons e entries ih =>
    obtain ⟨he, hentries⟩ := List.forall_mem_cons.mp hentries
    obtain ⟨hfresh, hdistinct⟩ := List.nodup_cons.mp hdistinct
    obtain ⟨hfirst, hnew⟩ := List.forall_mem_cons.mp hnew
    rw [List.map_cons, List.sum_cons] at hbudget
    have hroom : total + e.2.length ≤ limits.publicationBytes := by omega
    have hstep := readEntry_append hlimits he hfirst hroom husize (entries.flatMap entryBytes ++ rest)
    have hnext : ∀ x ∈ entries, (definitions.insert e.1 e.2).contains x.1 = false := by
      intro x hx
      rw [TreeMap.contains_insert, hnew x hx, Bool.or_false]
      have hne : e.1 ≠ x.1 := fun h => hfresh (h ▸ List.mem_map_of_mem hx)
      simpa using hne
    rw [List.flatMap_cons, List.append_assoc, List.length_cons, readEntries]
    refine bind_ok.mpr ⟨_, hstep, ?_⟩
    rw [ih hentries hdistinct _ _ hnext (by omega), List.foldl_cons, List.map_cons, List.sum_cons,
      Nat.add_assoc]

theorem envelope_eq {n : Nat} (h : limits.envelope = some n) :
    n = limits.publicationBytes * 2 + limits.definitions * 12 + 64 ∧ n ≤ usizeMax := by
  have hmul : ∀ {a b c : Nat}, checkedMul a b = some c → c = a * b := by
    intro a b c hc
    rw [checkedMul] at hc
    split_ifs at hc
    exact (Option.some.inj hc).symm
  simp only [Limits.envelope, Option.bind_eq_bind, Option.bind_eq_some_iff] at h
  obtain ⟨a, ha, b, hb, c, hc, h⟩ := h
  obtain ⟨hn, hle⟩ := checkedAdd_some.mp h
  refine ⟨?_, hle⟩
  rw [hn, (checkedAdd_some.mp hc).1, hmul ha, hmul hb]
  rfl

theorem publicationBytes_usize (h : limits.validate = .ok ()) :
    limits.publicationBytes ≤ usizeMax := by
  obtain ⟨n, hn⟩ := Option.isSome_iff_exists.mp (Limits.validate_ok.mp h).envelope
  have := envelope_eq hn
  omega

theorem readPublisher_toList (id : IdentityId) : readPublisher id.bytes.toList = some id := by
  rw [readPublisher, dif_pos (by simp)]
  rfl

theorem decode_layout (h : Fitting r limits) :
    ∃ r', decode (layout r) limits = .ok r' ∧ r'.Same r := by
  obtain ⟨total, htotal, hbudget⟩ := h.total
  obtain ⟨n, hn, hsize⟩ := h.envelope
  have hdistinct : (r.definitions.toList.map Prod.fst).Nodup :=
    List.pairwise_map.mpr (FiniteMap.pairwise_keys_ne r.definitions)
  rw [Prepared.totalBytes_ok htotal] at hbudget
  have hread := readEntries_append h.policy (publicationBytes_usize h.policy) h.entries hdistinct []
    r.board.length ∅ (fun _ _ => TreeMap.contains_emptyc) hbudget
  rw [List.append_nil, TreeMap.length_toList] at hread
  refine ⟨⟨r.publisher, r.board, r.definitions.toList.foldl (fun m e => m.insert e.1 e.2) ∅⟩, ?_,
    rfl, rfl, FiniteMap.refill r.definitions⟩
  refine bind_ok.mpr ⟨(), lift_ok.mpr h.policy, ?_⟩
  refine bind_ok.mpr ⟨n, need_ok.mpr hn, guard_ok.mpr ⟨not_lt.mpr hsize, ?_⟩⟩
  simp only [layout, List.append_assoc]
  refine bind_ok.mpr ⟨_, take_append rfl _, guard_ok.mpr ⟨not_not.mpr rfl, ?_⟩⟩
  refine bind_ok.mpr ⟨_, take_append (by simp) _, ?_⟩
  refine bind_ok.mpr ⟨_, need_ok.mpr (readPublisher_toList r.publisher), ?_⟩
  refine bind_ok.mpr ⟨_, field_append h.board (documentBytes_u32 h.policy) _, ?_⟩
  refine bind_ok.mpr ⟨_, number_append h.count.2 _, guard_ok.mpr ⟨not_lt.mpr h.count.1, ?_⟩⟩
  exact bind_ok.mpr ⟨_, hread, guard_ok.mpr ⟨not_not.mpr rfl, rfl⟩⟩

theorem layout_congr {r' : Record} (h : r.Same r') : layout r = layout r' := by
  rw [layout, layout, h.publisher, h.board, h.definitions.size_eq, h.definitions.toList_eq]

/-! Limits decide what is read, not how. -/

section

variable {limits' : Limits}

theorem field_agrees {rest : List UInt8} {m m' : Nat} {x y : List UInt8 × List UInt8}
    (hx : field rest m = .ok x) (hy : field rest m' = .ok y) : x = y := by
  obtain ⟨n, hn, hx⟩ := bind_ok.mp hx
  obtain ⟨n', hn', hy⟩ := bind_ok.mp hy
  obtain rfl := Except.ok.inj (hn.symm.trans hn')
  exact Except.ok.inj ((guard_ok.mp hx).2.symm.trans (guard_ok.mp hy).2)

theorem readEntry_agrees {s t t' : Reading} (h : readEntry limits s = .ok t)
    (h' : readEntry limits' s = .ok t') : t = t' := by
  obtain ⟨id, hid, h⟩ := bind_ok.mp h
  obtain ⟨id', hid', h'⟩ := bind_ok.mp h'
  obtain rfl := field_agrees hid hid'
  obtain ⟨name, hname, h⟩ := bind_ok.mp h
  obtain ⟨name', hname', h'⟩ := bind_ok.mp h'
  obtain rfl := Except.ok.inj (hname.symm.trans hname')
  obtain ⟨d, hd, h⟩ := bind_ok.mp h
  obtain ⟨d', hd', h'⟩ := bind_ok.mp h'
  obtain rfl := field_agrees hd hd'
  obtain ⟨total, htotal, h⟩ := bind_ok.mp h
  obtain ⟨total', htotal', h'⟩ := bind_ok.mp h'
  obtain rfl := Except.ok.inj (htotal.symm.trans htotal')
  have hlast := (guard_ok.mp (guard_ok.mp h).2).2
  have hlast' := (guard_ok.mp (guard_ok.mp h').2).2
  exact Except.ok.inj (hlast.symm.trans hlast')

theorem readEntries_agrees (n : Nat) {s t t' : Reading} (h : readEntries limits n s = .ok t)
    (h' : readEntries limits' n s = .ok t') : t = t' := by
  induction n generalizing s with
  | zero => exact Except.ok.inj (h.symm.trans h')
  | succ n ih =>
    obtain ⟨mid, hmid, h⟩ := bind_ok.mp h
    obtain ⟨mid', hmid', h'⟩ := bind_ok.mp h'
    obtain rfl := readEntry_agrees hmid hmid'
    exact ih h h'

theorem decode_agrees {bytes : List UInt8} {r' : Record} (h : decode bytes limits = .ok r)
    (h' : decode bytes limits' = .ok r') : r = r' := by
  obtain ⟨-, -, h⟩ := bind_ok.mp h
  obtain ⟨-, -, h'⟩ := bind_ok.mp h'
  obtain ⟨n, -, h⟩ := bind_ok.mp h
  obtain ⟨n', -, h'⟩ := bind_ok.mp h'
  obtain ⟨head, hhead, h⟩ := bind_ok.mp (guard_ok.mp h).2
  obtain ⟨head', hhead', h'⟩ := bind_ok.mp (guard_ok.mp h').2
  obtain rfl := Except.ok.inj (hhead.symm.trans hhead')
  obtain ⟨key, hkey, h⟩ := bind_ok.mp (guard_ok.mp h).2
  obtain ⟨key', hkey', h'⟩ := bind_ok.mp (guard_ok.mp h').2
  obtain rfl := Except.ok.inj (hkey.symm.trans hkey')
  obtain ⟨id, hid, h⟩ := bind_ok.mp h
  obtain ⟨id', hid', h'⟩ := bind_ok.mp h'
  obtain rfl := Except.ok.inj (hid.symm.trans hid')
  obtain ⟨board, hboard, h⟩ := bind_ok.mp h
  obtain ⟨board', hboard', h'⟩ := bind_ok.mp h'
  obtain rfl := field_agrees hboard hboard'
  obtain ⟨count, hcount, h⟩ := bind_ok.mp h
  obtain ⟨count', hcount', h'⟩ := bind_ok.mp h'
  obtain rfl := Except.ok.inj (hcount.symm.trans hcount')
  obtain ⟨s, hs, h⟩ := bind_ok.mp (guard_ok.mp h).2
  obtain ⟨s', hs', h'⟩ := bind_ok.mp (guard_ok.mp h').2
  obtain rfl := readEntries_agrees _ hs hs'
  exact Except.ok.inj ((guard_ok.mp h).2.symm.trans (guard_ok.mp h').2)

theorem decode_same {r' : Record} (h : Fitting r limits) (h' : decode (layout r) limits' = .ok r') :
    r'.Same r := by
  obtain ⟨r₀, hr₀, hsame⟩ := decode_layout h
  exact decode_agrees hr₀ h' ▸ hsame

end

end

end RecordCodec

end TalkSphere.Board
