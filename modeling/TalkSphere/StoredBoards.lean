import Mathlib.Algebra.Order.BigOperators.Group.List
import TalkSphere.Fidelity
import TalkSphere.JsonWeights
import TalkSphere.RecordCodec

/-! Published boards can be stored and reopened. The ids that a record repeats are strings of
the board, so the bytes of the board pay for them. -/

namespace TalkSphere.Board

open Json (Tree)
open Outcome (bind_ok)
open Std (TreeMap)

/-! Decoding adds no strings. -/

def Lighter (limits : Limits) (v t : Tree) : Prop := Fits limits v ∧ v.weight ≤ t.weight

theorem lighter_number {limits : Limits} {token : List UInt8} {t : Tree} :
    Lighter limits (.number token) t := by
  constructor
  · simp [Fits, Tree.subtrees, Own]
  · simp [Tree.weight]

mutual

theorem ofTree_lighter {limits : Limits} : ∀ {t v : Tree}, Fits limits t → ofTree t = some v →
    Lighter limits v t
  | .null, v, hfits, h => by
    obtain rfl := Option.some.inj h
    exact ⟨hfits, le_refl _⟩
  | .bool b, v, hfits, h => by
    obtain rfl := Option.some.inj h
    exact ⟨hfits, le_refl _⟩
  | .number token, v, hfits, h => by
    obtain rfl := Option.some.inj h
    exact ⟨hfits, le_refl _⟩
  | .string text, v, hfits, h => by
    obtain rfl := Option.some.inj h
    exact ⟨hfits, le_refl _⟩
  | .array items, v, hfits, h => by
    rw [ofTree] at h
    obtain ⟨values, hvalues, rfl⟩ := Option.map_eq_some_iff.mp h
    obtain ⟨hcount, hitems⟩ := fits_array.mp hfits
    obtain ⟨hlength, hall, hweight⟩ := ofTrees_lighter hitems hvalues
    exact ⟨fits_array.mpr ⟨hlength ▸ hcount, hall⟩, hweight⟩
  | .object [], v, hfits, h => by
    obtain rfl := Option.some.inj h
    exact ⟨hfits, le_refl _⟩
  | .object ((key, first) :: rest), v, hfits, h => by
    rw [ofTree] at h
    split at h
    case isTrue =>
      obtain ⟨token, rfl⟩ := privateNumber_number h
      exact lighter_number
    case isFalse =>
      simp only [Option.bind_eq_bind, Option.bind_eq_some_iff, Option.some.injEq] at h
      obtain ⟨first', hfirst, rest', hrest, rfl⟩ := h
      obtain ⟨⟨hkeys, hsizes⟩, hparts⟩ := fits_object.mp hfits
      have hfits : Fits limits first := hparts (key, first) List.mem_cons_self
      obtain ⟨hfits', hweight⟩ := ofTree_lighter hfits hfirst
      obtain ⟨hnames, hall, hweights⟩ := ofMembers_lighter
        (fun m hm => hparts m (List.mem_cons_of_mem _ hm)) hrest
      have hmap : ((key, first') :: rest').map Prod.fst = ((key, first) :: rest).map Prod.fst := by
        rw [List.map_cons, List.map_cons, hnames]
      have hperm : (mapOf ((key, first') :: rest')).Perm ((key, first') :: rest') :=
        mapOf_perm (distinctKeys_iff.mpr (hmap ▸ hkeys))
      refine ⟨fits_object.mpr ⟨⟨?_, ?_⟩, ?_⟩, ?_⟩
      · exact (hperm.map Prod.fst).nodup_iff.mpr (hmap ▸ hkeys)
      · intro m hm
        have hname : m.1 ∈ ((key, first) :: rest).map Prod.fst :=
          hmap ▸ List.mem_map_of_mem (hperm.mem_iff.mp hm)
        obtain ⟨x, hx, he⟩ := List.mem_map.mp hname
        exact he ▸ hsizes x hx
      · intro m hm
        rcases List.mem_cons.mp (hperm.mem_iff.mp hm) with rfl | hm
        · exact hfits'
        · exact hall m hm
      · rw [Tree.weight, Tree.weight, Json.memberWeights_eq,
          (hperm.map fun m => m.1.utf8ByteSize + m.2.weight).sum_eq, ← Json.memberWeights_eq,
          Json.memberWeights, Json.memberWeights]
        omega

theorem ofTrees_lighter {limits : Limits} : ∀ {ts vs : List Tree}, (∀ t ∈ ts, Fits limits t) →
    ofTrees ts = some vs →
    ts.length = vs.length ∧ (∀ v ∈ vs, Fits limits v) ∧ Json.weights vs ≤ Json.weights ts
  | [], vs, _, h => by
    obtain rfl := Option.some.inj h
    exact ⟨rfl, nofun, le_refl _⟩
  | t :: ts, vs, hfits, h => by
    simp only [ofTrees, Option.bind_eq_bind, Option.bind_eq_some_iff, Option.some.injEq] at h
    obtain ⟨v, hv, rest, hrest, rfl⟩ := h
    obtain ⟨hfirst, hall⟩ := List.forall_mem_cons.mp hfits
    obtain ⟨hfits', hweight⟩ := ofTree_lighter hfirst hv
    obtain ⟨hlength, hvs, hweights⟩ := ofTrees_lighter hall hrest
    refine ⟨by rw [List.length_cons, List.length_cons, hlength], List.forall_mem_cons.mpr ⟨hfits', hvs⟩, ?_⟩
    rw [Json.weights, Json.weights]
    omega

theorem ofMembers_lighter {limits : Limits} : ∀ {ms vs : List (String × Tree)},
    (∀ m ∈ ms, Fits limits m.2) → ofMembers ms = some vs →
    vs.map Prod.fst = ms.map Prod.fst ∧ (∀ v ∈ vs, Fits limits v.2) ∧
      Json.memberWeights vs ≤ Json.memberWeights ms
  | [], vs, _, h => by
    obtain rfl := Option.some.inj h
    exact ⟨rfl, nofun, le_refl _⟩
  | (key, t) :: ms, vs, hfits, h => by
    simp only [ofMembers, Option.bind_eq_bind, Option.bind_eq_some_iff, Option.some.injEq] at h
    obtain ⟨v, hv, rest, hrest, rfl⟩ := h
    have hfirst : Fits limits t := hfits (key, t) List.mem_cons_self
    have hall : ∀ m ∈ ms, Fits limits m.2 := fun m hm => hfits m (List.mem_cons_of_mem _ hm)
    obtain ⟨hfits', hweight⟩ := ofTree_lighter hfirst hv
    obtain ⟨hnames, hvs, hweights⟩ := ofMembers_lighter hall hrest
    refine ⟨by rw [List.map_cons, List.map_cons, hnames], List.forall_mem_cons.mpr ⟨hfits', hvs⟩, ?_⟩
    rw [Json.memberWeights, Json.memberWeights]
    omega

end

theorem document_lighter {bytes : List UInt8} {limits : Limits} {d : Document}
    (h : Document.parse bytes limits = .ok d) :
    Fits limits d.value ∧ d.value.weight ≤ bytes.length := by
  obtain ⟨-, -, -, hscan, hvalue, -⟩ := Document.parse_ok.mp h
  obtain ⟨t, hparse, hwithin⟩ := scan_ok.mp hscan
  obtain ⟨t', ht', hv⟩ := Option.bind_eq_some_iff.mp hvalue
  obtain rfl := Option.some.inj (hparse.symm.trans ht')
  obtain ⟨hfits, hweight⟩ := ofTree_lighter (within_iff.mp hwithin).1 hv
  exact ⟨hfits, hweight.trans (Json.parse_iff.mp hparse).weight_le⟩

/-! The ids of the offerings are strings of the board. -/

theorem offering_id {direction : Direction} {v : Tree} {o : Offering}
    (h : Offering.parse direction v = .ok o) : string v "id" = .ok o.id := by
  obtain ⟨ms, -, h⟩ := bind_ok.mp h
  obtain ⟨part, -, h⟩ := bind_ok.mp h
  obtain ⟨version, -, h⟩ := bind_ok.mp h
  obtain ⟨n, -, h⟩ := bind_ok.mp h
  obtain ⟨⟨⟩, -, h⟩ := bind_ok.mp h
  obtain ⟨id, hid, h⟩ := bind_ok.mp h
  obtain ⟨service, -, h⟩ := bind_ok.mp h
  obtain ⟨description, -, h⟩ := bind_ok.mp h
  obtain ⟨text, -, h⟩ := bind_ok.mp h
  obtain ⟨issuer, -, h⟩ := bind_ok.mp h
  obtain rfl := Except.ok.inj h
  exact hid

theorem get_mem {v part : Tree} {key : String} (h : get v key = some part) :
    ∃ ms, v = .object ms ∧ (key, part) ∈ ms := by
  cases v with
  | object ms => exact ⟨ms, rfl, lookup_some h⟩
  | null | bool | number | string | array => cases h

theorem id_weight {v : Tree} {id : String} (h : string v "id" = .ok id) :
    id.utf8ByteSize ≤ v.weight := by
  obtain ⟨ms, rfl, hmem⟩ := get_mem (string_ok.mp h).1
  rw [Tree.weight, Json.memberWeights_eq]
  have hle := List.single_le_sum (fun _ _ => Nat.zero_le _) _
    (List.mem_map_of_mem (f := fun m : String × Tree => m.1.utf8ByteSize + m.2.weight) hmem)
  simp only [Tree.weight] at hle
  omega

theorem spells_weight {direction : Direction} {items : List Tree} {os : List Offering}
    (h : Spells direction items os) :
    (os.map fun o => o.id.utf8ByteSize).sum ≤ Json.weights items := by
  induction h with
  | nil => exact le_refl _
  | cons hfirst _ ih =>
    have hid := id_weight (offering_id hfirst)
    rw [List.map_cons, List.sum_cons, Json.weights]
    omega

theorem Fits.get {limits : Limits} {v part : Tree} {key : String} (h : Fits limits v)
    (hv : Board.get v key = some part) : Fits limits part := by
  obtain ⟨ms, rfl, hmem⟩ := get_mem hv
  exact (fits_object.mp h).2 _ hmem

theorem spells_ids {limits : Limits} {direction : Direction} {items : List Tree} {os : List Offering}
    (h : Spells direction items os) (hfits : ∀ v ∈ items, Fits limits v) :
    ∀ o ∈ os, o.id ≠ "" ∧ o.id.utf8ByteSize ≤ limits.stringBytes := by
  induction h with
  | nil => nofun
  | cons hfirst _ ih =>
    obtain ⟨hv, hrest⟩ := List.forall_mem_cons.mp hfits
    obtain ⟨hget, hne⟩ := string_ok.mp (offering_id hfirst)
    exact List.forall_mem_cons.mpr ⟨⟨hne, fits_string.mp (hv.get hget)⟩, ih hrest⟩

theorem two_members_weight {v a b : Tree} {key other : String} (ha : get v key = some a)
    (hb : get v other = some b) (hne : key ≠ other) : a.weight + b.weight ≤ v.weight := by
  obtain ⟨ms, rfl, hmem⟩ := get_mem ha
  have hmem' : (other, b) ∈ ms := lookup_some hb
  have hpair : [(key, a), (other, b)].Nodup := by simp [hne]
  have hsub : [(key, a), (other, b)] ⊆ ms := by
    intro m hm
    rcases List.mem_pair.mp hm with rfl | rfl
    · exact hmem
    · exact hmem'
  obtain ⟨l, hperm, hl⟩ := List.Nodup.subperm hpair hsub
  have hsum := (hl.map fun m : String × Tree => m.1.utf8ByteSize + m.2.weight).sum_le_sum
    (fun _ _ => Nat.zero_le _)
  rw [(hperm.map fun m => m.1.utf8ByteSize + m.2.weight).sum_eq] at hsum
  rw [Tree.weight, Json.memberWeights_eq]
  simp only [List.map_cons, List.map_nil, List.sum_cons, List.sum_nil] at hsum
  omega

theorem ids_weight {bytes : List UInt8} {limits : Limits} {b : Board}
    (h : parse bytes limits = .ok b) : ∃ os, Indexes b.offerings os ∧
      (∀ o ∈ os, o.id ≠ "" ∧ o.id.utf8ByteSize ≤ limits.stringBytes) ∧
      (os.map fun o => o.id.utf8ByteSize).sum ≤ bytes.length := by
  obtain ⟨hdocument, provided, wanted, ps, ws, hprovided, hwanted, hps, hws, hindex⟩ := parse_ok h
  obtain ⟨hfits, hweight⟩ := document_lighter hdocument
  refine ⟨ps ++ ws, hindex, ?_, ?_⟩
  · intro o ho
    rcases List.mem_append.mp ho with ho | ho
    · exact spells_ids hps (fits_array.mp (hfits.get hprovided)).2 o ho
    · exact spells_ids hws (fits_array.mp (hfits.get hwanted)).2 o ho
  · have hboth := two_members_weight hprovided hwanted (by decide)
    have hp := spells_weight hps
    have hw := spells_weight hws
    simp only [Tree.weight] at hboth
    rw [List.map_append, List.sum_append]
    omega

namespace Prepared

variable {publisher : IdentityId} {board : List UInt8}
  {definitions : TreeMap String (List UInt8)} {limits : Limits} {caps : Capabilities} {p : Prepared}

theorem keys_perm (h : new publisher board definitions limits caps = .ok p) {os : List Offering}
    (hindex : Indexes p.board.offerings os) :
    (definitions.toList.map Prod.fst).Perm (os.map Offering.id) := by
  obtain ⟨-, -, -, -, -, -, ⟨s, hs, hp⟩, -, -⟩ := new_ok h
  have hkeys : (definitions.toList.map Prod.fst).Nodup :=
    List.pairwise_map.mpr (FiniteMap.pairwise_keys_ne definitions)
  refine (List.perm_ext_iff_of_nodup hkeys hindex.distinct).mpr fun id => ?_
  have hdefined : id ∈ definitions.toList.map Prod.fst ↔ ∃ d, p.definitions[id]? = some d := by
    have hsources := (new_sources h).2 id
    constructor
    · intro hid
      obtain ⟨⟨_, bytes⟩, hmem, rfl⟩ := List.mem_map.mp hid
      rw [TreeMap.mem_toList_iff_getElem?_eq_some] at hmem
      obtain ⟨d, hd, -⟩ := Option.map_eq_some_iff.mp (hsources.trans hmem)
      exact ⟨d, hd⟩
    · rintro ⟨d, hd⟩
      rw [hd, Option.map_some] at hsources
      exact List.mem_map.mpr ⟨_, TreeMap.mem_toList_iff_getElem?_eq_some.mpr hsources.symm, rfl⟩
  rw [hdefined, ← hs]
  constructor
  · rintro ⟨d, hd⟩
    have hcontains : s.definitions.contains id = true := by
      rw [TreeMap.contains_eq_isSome_getElem?, hd]
      rfl
    obtain ⟨o, ho⟩ := hp.keys hcontains
    obtain ⟨hmem, rfl⟩ := hindex.holds.mp (TreeMap.mem_toList_iff_getElem?_eq_some.mp ho)
    exact List.mem_map_of_mem hmem
  · intro hid
    obtain ⟨o, ho, rfl⟩ := List.mem_map.mp hid
    have hget := hindex.holds.mpr ⟨ho, rfl⟩
    obtain ⟨d, -, hd, -⟩ := hp.parsed (TreeMap.mem_toList_iff_getElem?_eq_some.mpr hget)
    exact ⟨d, hd⟩

theorem definition_size (h : new publisher board definitions limits caps = .ok p)
    {e : String × List UInt8} (he : e ∈ definitions.toList) :
    e.2.length ≤ limits.documentBytes := by
  obtain ⟨-, -, -, hboard, -, -, ⟨s, hs, hp⟩, -, -⟩ := new_ok h
  obtain ⟨os, hindex, -, -⟩ := ids_weight hboard
  have hid := (keys_perm h hindex).mem_iff.mp (List.mem_map_of_mem he)
  obtain ⟨o, ho, hkey⟩ := List.mem_map.mp hid
  have hget := hindex.holds.mpr ⟨ho, rfl⟩
  obtain ⟨d, bytes, -, hbytes, hparse, -⟩ :=
    hp.parsed (TreeMap.mem_toList_iff_getElem?_eq_some.mpr hget)
  rw [hkey, TreeMap.mem_toList_iff_getElem?_eq_some.mp he] at hbytes
  obtain rfl := Option.some.inj hbytes
  exact (Document.parse_ok.mp (Definition.parse_ok hparse).1).2.1

end Prepared

/-! Room in the envelope. -/

theorem length_layout (r : Record) : (RecordCodec.layout r).length = 48 + r.board.length +
    8 * r.definitions.size + (r.definitions.toList.map fun e => (utf8 e.1).length).sum +
    (r.definitions.toList.map fun e => e.2.length).sum := by
  have hentries : ∀ entries : List (String × List UInt8),
      (entries.flatMap RecordCodec.entryBytes).length = 8 * entries.length +
        (entries.map fun e => (utf8 e.1).length).sum + (entries.map fun e => e.2.length).sum := by
    intro entries
    induction entries with
    | nil => rfl
    | cons e entries ih =>
      simp only [List.flatMap_cons, List.length_append, ih, RecordCodec.entryBytes,
        RecordCodec.prefixed, BigEndian.encode_length, List.length_cons, List.map_cons, List.sum_cons]
      omega
  have hmagic : RecordCodec.magic.length = 8 := rfl
  simp only [RecordCodec.layout, List.length_append, hentries, RecordCodec.prefixed,
    BigEndian.encode_length, Vector.length_toList, TreeMap.length_toList, hmagic]
  omega

section

variable {publisher : IdentityId} {board : List UInt8}
  {definitions : TreeMap String (List UInt8)} {limits : Limits} {caps : Capabilities} {p : Prepared}

theorem ids_sum (h : Prepared.new publisher board definitions limits caps = .ok p) :
    definitions.size ≤ (definitions.toList.map fun e => (utf8 e.1).length).sum ∧
      (definitions.toList.map fun e => (utf8 e.1).length).sum ≤ board.length ∧
      ∀ e ∈ definitions.toList, (utf8 e.1).length ≤ limits.stringBytes := by
  obtain ⟨-, -, -, hboard, -, -, -, -, -⟩ := Prepared.new_ok h
  obtain ⟨os, hindex, hids, hsum⟩ := ids_weight hboard
  have hperm := Prepared.keys_perm h hindex
  have hkey : ∀ e ∈ definitions.toList, ∃ o ∈ os, o.id = e.1 :=
    fun e he => List.mem_map.mp (hperm.mem_iff.mp (List.mem_map_of_mem he))
  have heq := (hperm.map String.utf8ByteSize).sum_eq
  rw [List.map_map, List.map_map] at heq
  have hlength : (fun e : String × List UInt8 => (utf8 e.1).length) =
      String.utf8ByteSize ∘ Prod.fst := funext fun e => utf8_length e.1
  rw [hlength, heq]
  refine ⟨?_, hsum, ?_⟩
  · have hpos : ∀ n ∈ os.map fun o => o.id.utf8ByteSize, 1 ≤ n := by
      intro n hn
      obtain ⟨o, ho, rfl⟩ := List.mem_map.mp hn
      exact Nat.pos_of_ne_zero fun hzero => (hids o ho).1 (String.utf8ByteSize_eq_zero_iff.mp hzero)
    have hcard : os.length ≤ (os.map fun o => o.id.utf8ByteSize).sum := by
      simpa using List.card_nsmul_le_sum _ 1 hpos
    have hsize : definitions.size = os.length := by
      rw [← TreeMap.length_toList, ← List.length_map Prod.fst, hperm.length_eq, List.length_map]
    rw [hsize]
    exact hcard
  · intro e he
    obtain ⟨o, ho, hid⟩ := hkey e he
    rw [utf8_length, ← hid]
    exact (hids o ho).2

theorem fromPrepared_fitting (h : Prepared.new publisher board definitions limits caps = .ok p) :
    RecordCodec.Fitting (Record.fromPrepared p) limits := by
  obtain ⟨hvalid, htotal, hbudget, hboard, -, -, -, -, -⟩ := Prepared.new_ok h
  have hcount : definitions.size ≤ limits.definitions := by
    obtain ⟨⟨⟩, -, h⟩ := bind_ok.mp h
    exact not_lt.mp (guard_ok.mp h).1
  obtain ⟨hnumber, hids, hnames⟩ := ids_sum h
  have hequiv := Prepared.fromPrepared_equiv h
  have hsource : (Record.fromPrepared p).board = board := (Prepared.new_sources h).1
  have hdocument : board.length ≤ limits.documentBytes :=
    (Document.parse_ok.mp (parse_ok hboard).1).2.1
  have hpolicy := Limits.validate_ok.mp hvalid
  have hbytes := Prepared.totalBytes_ok htotal
  constructor
  case policy => exact hvalid
  case count =>
    have hmax := hpolicy.documentBytes
    rw [hequiv.size_eq, u32Max]
    exact ⟨hcount, by omega⟩
  case total =>
    refine ⟨p.bytes, ?_, hbudget⟩
    rw [hsource, Prepared.totalBytes, hequiv.toList_eq]
    exact htotal
  case board => rwa [hsource]
  case entries =>
    intro e he
    rw [hequiv.toList_eq] at he
    exact ⟨hnames e he, Prepared.definition_size h he⟩
  case envelope =>
    obtain ⟨n, hn⟩ := Option.isSome_iff_exists.mp hpolicy.envelope
    obtain ⟨rfl, -⟩ := RecordCodec.envelope_eq hn
    refine ⟨_, hn, ?_⟩
    rw [length_layout, hsource, hequiv.size_eq, hequiv.toList_eq]
    omega

end

structure BoardsStorable : Prop where
  /-- A prepared publication is written, read back and prepared again unchanged. -/
  reopened : ∀ publisher board definitions limits caps p,
    Prepared.new publisher board definitions limits caps = .ok p →
    ∃ bytes r, RecordCodec.encode (Record.fromPrepared p) limits = .ok bytes ∧
      RecordCodec.decode bytes limits = .ok r ∧ r.Same (Record.fromPrepared p) ∧
      r.prepare limits caps = .ok p
  roundTrip : ∀ r limits bytes, RecordCodec.encode r limits = .ok bytes →
    ∃ r', RecordCodec.decode bytes limits = .ok r' ∧ r'.Same r

theorem boards_storable : BoardsStorable := by
  constructor
  case reopened =>
    intro publisher board definitions limits caps p h
    have hfitting := fromPrepared_fitting h
    obtain ⟨r, hr, hsame⟩ := RecordCodec.decode_layout hfitting
    refine ⟨_, r, RecordCodec.encode_ok.mpr ⟨hfitting, rfl⟩, hr, hsame, ?_⟩
    rw [hsame.prepare_eq]
    exact Record.prepare_fromPrepared h
  case roundTrip =>
    intro r limits bytes h
    obtain ⟨hfitting, rfl⟩ := RecordCodec.encode_ok.mp h
    exact RecordCodec.decode_layout hfitting

theorem boards_storable_echo : ∃ p bytes r, Prepared.echoOutcome = .ok p ∧ p.Echoes ∧
    RecordCodec.encode (Record.fromPrepared p) {} = .ok bytes ∧
    RecordCodec.decode bytes {} = .ok r ∧ r.prepare {} Prepared.permissive = .ok p := by
  obtain ⟨p, hp, hechoes⟩ := Prepared.echo_prepared
  obtain ⟨bytes, r, hbytes, hr, -, hprepare⟩ := boards_storable.reopened _ _ _ _ _ p hp
  exact ⟨p, bytes, r, hp, hechoes, hbytes, hr, hprepare⟩

end TalkSphere.Board
