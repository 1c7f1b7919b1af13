import TalkSphere.Definitions
import TalkSphere.Fidelity

/-! Prepared publications: a board with the definitions of all its offerings, checked as a
whole. -/

namespace TalkSphere.Board

open Json (Tree)
open Outcome (bind_ok)
open Std (TreeMap)

structure Prepared where
  publisher : IdentityId
  board : Board
  definitions : TreeMap String Definition
  bytes : Nat

/-- The loop over the offerings: the definitions so far, and for each contract the offering
that the others are compared with. -/
structure Validated where
  definitions : TreeMap String Definition := ∅
  contracts : List ((String × Nat) × String) := []

def addDefinition (definitions : TreeMap String (List UInt8)) (limits : Limits) (s : Validated)
    (entry : String × Offering) : Except Stop Validated := do
  let (id, o) := entry
  let d ← Definition.parse (← need .missing definitions[id]?) o limits
  let _ ← encodeResponse "definition" d.document
  match s.contracts.lookup (o.service, o.version) with
  | some priorId =>
    let prior ← need .invalid s.definitions[priorId]?
    let same ← d.sameContract prior
    if !same then refuse .invalid
    else .ok { s with definitions := s.definitions.insert id d }
  | none =>
    .ok ⟨s.definitions.insert id d, ((o.service, o.version), id) :: s.contracts⟩

namespace Prepared

def assess (p : Prepared) (caps : Capabilities) : Except Stop Unit :=
  p.board.offerings.toList.forM fun (id, o) =>
    match p.definitions[id]? with
    | none => .error .outOfRange
    | some d => Board.assess caps o d true true

def totalBytes (board : List UInt8) (definitions : TreeMap String (List UInt8)) :
    Except Stop Nat :=
  (definitions.toList.map Prod.snd).foldlM (fun sum d => need .limit (checkedAdd sum d.length))
    board.length

def new (publisher : IdentityId) (board : List UInt8) (definitions : TreeMap String (List UInt8))
    (limits : Limits) (caps : Capabilities) : Except Stop Prepared := do
  lift limits.validate
  if definitions.size > limits.definitions then refuse .limit
  else
    let bytes ← totalBytes board definitions
    if bytes > limits.publicationBytes then refuse .limit
    else
      let board ← Board.parse board limits
      let _ ← encodeResponse "board" board.document
      if definitions.size ≠ board.offerings.size then refuse .invalid
      else
        let s ← board.offerings.toList.foldlM (addDefinition definitions limits) {}
        let p := ⟨publisher, board, s.definitions, bytes⟩
        assess p caps
        .ok p

/-! The loop. -/

/-- What the loop knows about the offerings it has passed. -/
structure Passed (definitions : TreeMap String (List UInt8)) (limits : Limits)
    (entries : List (String × Offering)) (s : Validated) : Prop where
  keys : ∀ {id}, s.definitions.contains id = true → ∃ o, (id, o) ∈ entries
  parsed : ∀ {id o}, (id, o) ∈ entries → ∃ d bytes, s.definitions[id]? = some d ∧
    definitions[id]? = some bytes ∧ Definition.parse bytes o limits = .ok d ∧
    ∃ r, encodeResponse "definition" d.document = .ok r
  represented : ∀ {id o}, (id, o) ∈ entries → ∃ prior, s.contracts.lookup (o.service, o.version) =
    some prior ∧ ∀ {d}, s.definitions[id]? = some d → ∃ dp, s.definitions[prior]? = some dp ∧
      SameContract d.document.value dp.document.value

theorem passed_nil (definitions : TreeMap String (List UInt8)) (limits : Limits) :
    Passed definitions limits [] {} := ⟨by simp, nofun, nofun⟩

theorem sameContract_self {bytes : List UInt8} {o : Offering} {limits : Limits} {d : Definition}
    (h : Definition.parse bytes o limits = .ok d) :
    SameContract d.document.value d.document.value := by
  obtain ⟨hd, hb⟩ := Definition.parse_ok h
  obtain ⟨ms, hms⟩ : ∃ ms, d.document.value = .object ms := by
    have hid := hb.id
    generalize d.document.value = v at hid
    cases v with
    | object ms => exact ⟨ms, rfl⟩
    | null | bool | number | string | array => simp [string, get, need, refuse] at hid
  have hrefl := equivalent_refl (Document.parse_distinct hd hms)
  rw [hms]
  exact ⟨hrefl, hrefl⟩

section

variable {definitions : TreeMap String (List UInt8)} {limits : Limits}
  {entries : List (String × Offering)} {s s' : Validated} {id : String} {o : Offering}

theorem addDefinition_ok (h : addDefinition definitions limits s (id, o) = .ok s') :
    ∃ d bytes, definitions[id]? = some bytes ∧ Definition.parse bytes o limits = .ok d ∧
      (∃ r, encodeResponse "definition" d.document = .ok r) ∧
      s'.definitions = s.definitions.insert id d ∧
      ((∃ prior dp, s.contracts.lookup (o.service, o.version) = some prior ∧
          s.definitions[prior]? = some dp ∧ d.sameContract dp = .ok true ∧
          s'.contracts = s.contracts) ∨
        s.contracts.lookup (o.service, o.version) = none ∧
          s'.contracts = ((o.service, o.version), id) :: s.contracts) := by
  obtain ⟨bytes, hbytes, h⟩ := bind_ok.mp h
  obtain ⟨d, hd, h⟩ := bind_ok.mp h
  obtain ⟨r, hr, h⟩ := bind_ok.mp h
  refine ⟨d, bytes, need_ok.mp hbytes, hd, ⟨r, hr⟩, ?_⟩
  split at h
  case h_1 prior hprior =>
    obtain ⟨dp, hdp, h⟩ := bind_ok.mp h
    obtain ⟨same, hsame, h⟩ := bind_ok.mp h
    obtain ⟨hne, h⟩ := guard_ok.mp h
    obtain rfl := Except.ok.inj h
    obtain rfl : same = true := by simpa using hne
    exact ⟨rfl, .inl ⟨prior, dp, hprior, need_ok.mp hdp, hsame, rfl⟩⟩
  case h_2 hnone =>
    obtain rfl := Except.ok.inj h
    exact ⟨rfl, .inr ⟨hnone, rfl⟩⟩

theorem Passed.step (hp : Passed definitions limits entries s)
    (hfresh : ∀ e ∈ entries, e.1 ≠ id)
    (h : addDefinition definitions limits s (id, o) = .ok s') :
    Passed definitions limits (entries ++ [(id, o)]) s' := by
  obtain ⟨d, bytes, hbytes, hparse, hresponse, hdefs, hcontract⟩ := addDefinition_ok h
  have hself : s'.definitions[id]? = some d := by rw [hdefs, TreeMap.getElem?_insert_self]
  have hother : ∀ {k}, k ≠ id → s'.definitions[k]? = s.definitions[k]? := by
    intro k hk
    rw [hdefs, TreeMap.getElem?_insert, if_neg (by simpa using hk.symm)]
  have hheld : ∀ {k dp}, s.definitions[k]? = some dp → k ≠ id := by
    intro k dp hk
    have hcontains : s.definitions.contains k = true := by
      rw [TreeMap.contains_eq_isSome_getElem?, hk]
      rfl
    obtain ⟨_, hmem⟩ := hp.keys hcontains
    exact hfresh _ hmem
  refine ⟨fun {k} hk => ?_, fun {k x} hx => ?_, fun {k x} hx => ?_⟩
  · by_cases hki : k = id
    · exact ⟨o, by simp [hki]⟩
    · rw [TreeMap.contains_eq_isSome_getElem?, hother hki, ← TreeMap.contains_eq_isSome_getElem?] at hk
      obtain ⟨x, hx⟩ := hp.keys hk
      exact ⟨x, List.mem_append_left _ hx⟩
  · rcases List.mem_append.mp hx with hx | hx
    · obtain ⟨dx, bx, hdx, hrest⟩ := hp.parsed hx
      exact ⟨dx, bx, by rwa [hother (hfresh _ hx)], hrest⟩
    · obtain ⟨rfl, rfl⟩ := Prod.mk.inj (List.mem_singleton.mp hx)
      exact ⟨d, bytes, hself, hbytes, hparse, hresponse⟩
  · rcases List.mem_append.mp hx with hx | hx
    · -- an offering passed before keeps its representative
      obtain ⟨prior, hlookup, hrep⟩ := hp.represented hx
      refine ⟨prior, ?_, fun {dx} hdx => ?_⟩
      · rcases hcontract with ⟨_, _, _, _, _, hsame⟩ | ⟨hnone, hcons⟩
        · rwa [hsame]
        · have hne : ((x.service, x.version) == (o.service, o.version)) = false := by
            refine beq_eq_false_iff_ne.mpr fun he => ?_
            rw [he, hnone] at hlookup
            cases hlookup
          rw [hcons, List.lookup_cons, hne]
          exact hlookup
      · rw [hother (hfresh _ hx)] at hdx
        obtain ⟨dp, hdp, hrest⟩ := hrep hdx
        exact ⟨dp, by rwa [hother (hheld hdp)], hrest⟩
    · obtain ⟨rfl, rfl⟩ := Prod.mk.inj (List.mem_singleton.mp hx)
      rcases hcontract with ⟨prior, dp, hlookup, hdp, hsame, hkeep⟩ | ⟨-, hcons⟩
      · refine ⟨prior, by rwa [hkeep], fun {dx} hdx => ?_⟩
        obtain rfl := Option.some.inj (hself.symm.trans hdx)
        exact ⟨dp, by rwa [hother (hheld hdp)], Definition.sameContract_ok hsame⟩
      · refine ⟨k, by simp [hcons], fun {dx} hdx => ?_⟩
        obtain rfl := Option.some.inj (hself.symm.trans hdx)
        exact ⟨d, hself, sameContract_self hparse⟩

end

/-! Prepared publications are coherent. -/

theorem totalBytes_ok {board : List UInt8} {definitions : TreeMap String (List UInt8)} {n : Nat}
    (h : totalBytes board definitions = .ok n) :
    n = board.length + (definitions.toList.map fun e => e.2.length).sum := by
  have hsum := Outcome.foldlM_ok
    (fun (passed : List (List UInt8)) n => n = board.length + (passed.map List.length).sum) h rfl
    fun {passed d rest n n'} _ hn hd => by
      rw [(checkedAdd_some.mp (need_ok.mp hd)).1, hn, List.map_append, List.sum_append]
      simp only [List.map_cons, List.map_nil, List.sum_singleton]
      omega
  rw [hsum, List.map_map]
  rfl

def Wrapped (kind : String) (document : Document) : Prop :=
  ∃ bytes t, encodeResponse kind document = .ok bytes ∧ bytes.length ≤ 1048576 ∧
    Json.Text t bytes ∧ t.depth ≤ 32

theorem wrapped_of_encode {kind : String} {source bytes : List UInt8} {limits : Limits}
    {document : Document} (hd : Document.parse source limits = .ok document)
    (h : encodeResponse kind document = .ok bytes) : Wrapped kind document := by
  obtain ⟨head, hhead, rfl, hlength⟩ := encodeResponse_ok h
  obtain ⟨hvalid, -, -, hscan, -, rfl⟩ := Document.parse_ok.mp hd
  obtain ⟨t, ht, hwithin⟩ := scan_ok.mp hscan
  refine ⟨_, _, h, hlength, response_text hhead (Json.parse_iff.mp ht), ?_⟩
  have hdepth := hwithin.depth.trans (Limits.validate_ok.mp hvalid).depth
  simp only [Tree.depth, Json.memberDepths]
  omega

structure Coherent (p : Prepared) (limits : Limits) : Prop where
  /-- The offerings are those of both lists, and the definitions have their ids. -/
  listed : ∃ provided wanted ps ws,
    get p.board.document.value "providedServices" = some (.array provided) ∧
    get p.board.document.value "wantedServices" = some (.array wanted) ∧
    Spells .provided provided ps ∧ Spells .wanted wanted ws ∧
    ((ps ++ ws).map Offering.id).Nodup ∧
    (∀ id o, p.board.offerings[id]? = some o ↔ o ∈ ps ++ ws ∧ o.id = id) ∧
    ∀ id, p.definitions.contains id = true ↔ id ∈ (ps ++ ws).map Offering.id
  bound : ∀ {id : String} {o : Offering} {d : Definition}, p.board.offerings[id]? = some o →
    p.definitions[id]? = some d → Binds d.document.value o
  contracts : ∀ {id id' : String} {o o' : Offering} {d d' : Definition},
    p.board.offerings[id]? = some o → p.definitions[id]? = some d →
    p.board.offerings[id']? = some o' → p.definitions[id']? = some d' → o.service = o'.service →
    o.version = o'.version → d.sameContract d' = .ok true ∧ d'.sameContract d = .ok true
  bytes : p.bytes = p.board.document.source.length +
    (p.definitions.toList.map fun e => e.2.document.source.length).sum
  budget : p.bytes ≤ limits.publicationBytes
  board : Wrapped "board" p.board.document
  definitions : ∀ {id : String} {d : Definition}, p.definitions[id]? = some d →
    Wrapped "definition" d.document

section

variable {publisher : IdentityId} {board : List UInt8}
  {definitions : TreeMap String (List UInt8)} {limits : Limits} {caps : Capabilities} {p : Prepared}

theorem new_ok (h : new publisher board definitions limits caps = .ok p) :
    limits.validate = .ok () ∧ totalBytes board definitions = .ok p.bytes ∧
      p.bytes ≤ limits.publicationBytes ∧ parse board limits = .ok p.board ∧
      (∃ r, encodeResponse "board" p.board.document = .ok r) ∧
      definitions.size = p.board.offerings.size ∧
      (∃ s : Validated, s.definitions = p.definitions ∧
        Passed definitions limits p.board.offerings.toList s) ∧
      p.assess caps = .ok () ∧ p.publisher = publisher := by
  obtain ⟨⟨⟩, hvalid, h⟩ := bind_ok.mp h
  obtain ⟨-, h⟩ := guard_ok.mp h
  obtain ⟨bytes, hbytes, h⟩ := bind_ok.mp h
  obtain ⟨hle, h⟩ := guard_ok.mp h
  obtain ⟨b, hb, h⟩ := bind_ok.mp h
  obtain ⟨r, hr, h⟩ := bind_ok.mp h
  obtain ⟨hsize, h⟩ := guard_ok.mp h
  obtain ⟨s, hs, h⟩ := bind_ok.mp h
  obtain ⟨⟨⟩, hassess, h⟩ := bind_ok.mp h
  obtain rfl := Except.ok.inj h
  refine ⟨lift_ok.mp hvalid, hbytes, Nat.not_lt.mp hle, hb, ⟨r, hr⟩, not_not.mp hsize, ⟨s, rfl, ?_⟩,
    hassess, rfl⟩
  refine Outcome.foldlM_ok (Passed definitions limits) hs (passed_nil definitions limits) ?_
  rintro passed ⟨id, o⟩ rest s s' hitems hp hstep
  have hdistinct := FiniteMap.pairwise_keys_ne b.offerings
  rw [hitems] at hdistinct
  exact hp.step (fun e he => (List.pairwise_append.mp hdistinct).2.2 e he _ List.mem_cons_self) hstep

theorem new_sources (h : new publisher board definitions limits caps = .ok p) :
    p.board.document.source = board ∧
      ∀ id : String, p.definitions[id]?.map (·.document.source) = definitions[id]? := by
  obtain ⟨-, -, -, hboard, -, hsize, ⟨s, hs, hp⟩, -, -⟩ := new_ok h
  obtain ⟨hd, -⟩ := parse_ok hboard
  have hsource : ∀ {bytes : List UInt8} {d : Document}, Document.parse bytes limits = .ok d →
      d.source = bytes := fun hparse => (Document.parse_ok.mp hparse).2.2.2.2.2
  refine ⟨hsource hd, fun id => ?_⟩
  have hoffered : ∀ {id : String} {o}, p.board.offerings[id]? = some o →
      (id, o) ∈ p.board.offerings.toList := TreeMap.mem_toList_iff_getElem?_eq_some.mpr
  have hkeys : ∀ {id : String}, definitions.contains id = true →
      p.board.offerings.contains id = true :=
    FiniteMap.contains_of_size_le (fun id hid => by
      rw [TreeMap.contains_eq_isSome_getElem?, Option.isSome_iff_exists] at hid ⊢
      obtain ⟨o, ho⟩ := hid
      obtain ⟨_, bytes, -, hbytes, -⟩ := hp.parsed (hoffered ho)
      exact ⟨bytes, hbytes⟩) hsize.le
  rw [← hs]
  cases ho : p.board.offerings[id]? with
  | some o =>
    obtain ⟨d, bytes, hdefs, hbytes, hparse, -⟩ := hp.parsed (hoffered ho)
    rw [hdefs, hbytes, Option.map_some, hsource (Definition.parse_ok hparse).1]
  | none =>
    have hnone : definitions[id]? = none := by
      by_contra hne
      have hcontains : definitions.contains id = true := by
        rw [TreeMap.contains_eq_isSome_getElem?]
        exact Option.isSome_iff_ne_none.mpr hne
      have hin := hkeys hcontains
      rw [TreeMap.contains_eq_isSome_getElem?, ho] at hin
      cases hin
    have hdefs : s.definitions[id]? = none := by
      by_contra hne
      have hcontains : s.definitions.contains id = true := by
        rw [TreeMap.contains_eq_isSome_getElem?]
        exact Option.isSome_iff_ne_none.mpr hne
      obtain ⟨o, hmem⟩ := hp.keys hcontains
      rw [TreeMap.mem_toList_iff_getElem?_eq_some, ho] at hmem
      cases hmem
    rw [hnone, hdefs]
    rfl

theorem new_coherent (h : new publisher board definitions limits caps = .ok p) :
    p.Coherent limits := by
  obtain ⟨-, hbytes, hbudget, hboard, ⟨r, hr⟩, -, ⟨s, hs, hp⟩, -, -⟩ := new_ok h
  obtain ⟨hdocument, provided, wanted, ps, ws, hprovided, hwanted, hps, hws, hindex⟩ := parse_ok hboard
  obtain ⟨hsource, hsources⟩ := new_sources h
  rw [← hs] at hsources
  have hmem : ∀ {id : String} {o}, p.board.offerings[id]? = some o ↔
      (id, o) ∈ p.board.offerings.toList := TreeMap.mem_toList_iff_getElem?_eq_some.symm
  have hbound : ∀ {id : String} {o d}, (id, o) ∈ p.board.offerings.toList →
      s.definitions[id]? = some d → Binds d.document.value o := by
    intro id o d ho hd
    obtain ⟨d', bytes, hd', -, hparse, -⟩ := hp.parsed ho
    obtain rfl := Option.some.inj (hd.symm.trans hd')
    exact (Definition.parse_ok hparse).2
  constructor
  case listed =>
    refine ⟨provided, wanted, ps, ws, hprovided, hwanted, hps, hws, hindex.distinct,
      fun id o => hindex.holds, fun id => ?_⟩
    rw [← hs]
    constructor
    · intro hid
      obtain ⟨o, ho⟩ := hp.keys hid
      obtain ⟨hin, he⟩ := hindex.holds.mp (hmem.mpr ho)
      exact he ▸ List.mem_map_of_mem hin
    · intro hid
      obtain ⟨o, hin, he⟩ := List.mem_map.mp hid
      obtain ⟨d, _, hd, -⟩ := hp.parsed (hmem.mp (hindex.holds.mpr ⟨hin, he⟩))
      rw [TreeMap.contains_eq_isSome_getElem?, hd]
      rfl
  case bound =>
    intro id o d ho hd
    exact hbound (hmem.mp ho) (hs ▸ hd)
  case contracts =>
    intro id id' o o' d d' ho hd ho' hd' hservice hversion
    rw [← hs] at hd hd'
    obtain ⟨prior, hlookup, hrep⟩ := hp.represented (hmem.mp ho)
    obtain ⟨prior', hlookup', hrep'⟩ := hp.represented (hmem.mp ho')
    rw [hservice, hversion, hlookup'] at hlookup
    obtain rfl := Option.some.inj hlookup
    obtain ⟨dp, hdp, hsame⟩ := hrep hd
    obtain ⟨dp', hdp', hsame'⟩ := hrep' hd'
    obtain rfl := Option.some.inj (hdp.symm.trans hdp')
    have hboth := hsame.trans hsame'.symm
    have hv := (hbound (hmem.mp ho) hd).version
    have hv' := (hbound (hmem.mp ho') hd').version
    rw [hversion] at hv
    exact ⟨(Definition.sameContract_iff hv hv').mpr hboth,
      (Definition.sameContract_iff hv' hv).mpr hboth.symm⟩
  case bytes =>
    have hperm := FiniteMap.perm_of_lookup_eq (fun d : Definition => d.document.source)
      (fun bytes : List UInt8 => bytes) fun id => by rw [hsources, Option.map_id']
    have hsum := (hperm.map fun e => e.2.length).sum_eq
    rw [totalBytes_ok hbytes, hsource, ← hs]
    simpa [List.map_map, Function.comp_def] using hsum.symm
  case budget => exact hbudget
  case board => exact wrapped_of_encode hdocument hr
  case definitions =>
    intro id d hd
    rw [← hs] at hd
    have hcontains : s.definitions.contains id = true := by
      rw [TreeMap.contains_eq_isSome_getElem?, hd]
      rfl
    obtain ⟨o, ho⟩ := hp.keys hcontains
    obtain ⟨d', bytes, hd', -, hparse, r', hr'⟩ := hp.parsed ho
    obtain rfl := Option.some.inj (hd.symm.trans hd')
    exact wrapped_of_encode (Definition.parse_ok hparse).1 hr'

end

def sampleBoard : List UInt8 := Json.utf8
  "\x7b\"version\":1,\"providedServices\":[],\"wantedServices\":[]\x7d".toList

def sampleOutcome : Except Stop Prepared :=
  new ⟨Vector.replicate 32 0⟩ sampleBoard ∅ {} .unavailable

/-! A board with two offerings of one service and version. -/

mutual

/-- The text of a tree without gaps and escapes. -/
def spell : Tree → List UInt8
  | .array items => Json.openBracket :: spellItems items ++ [Json.closeBracket]
  | .object members => Json.openBrace :: spellMembers members ++ [Json.closeBrace]
  | .string text => Json.quote :: Json.utf8 text.toList ++ [Json.quote]
  | .number token => token
  | .null | .bool _ => []

def spellItems : List Tree → List UInt8
  | [] => []
  | t :: ts => spell t ++ (if ts.isEmpty then [] else [Json.comma]) ++ spellItems ts

def spellMembers : List (String × Tree) → List UInt8
  | [] => []
  | (key, t) :: ms => Json.quote :: Json.utf8 key.toList ++ [Json.quote, Json.colon] ++ spell t ++
      (if ms.isEmpty then [] else [Json.comma]) ++ spellMembers ms

end

def echoTerms (id : String) : Tree := .object
  [("creditIssuer", .string "cr2se:aaaaaaaaaaaaaaaaaaaaaaaaaaaaaaaaaaaaaaaaaaaaaaaaaaaa"),
    ("description", .string "e"), ("id", .string id), ("price", .number [0x37]),
    ("service", .string "echo"), ("serviceVersion", .number [0x31])]

def echoTree : Tree := .object
  [("providedServices", .array [echoTerms "a", echoTerms "b"]), ("version", .number [0x31]),
    ("wantedServices", .array [])]

def echoFlag : Tree := .object [("type", .string "bool")]

def echoCheck : Tree := .object
  [("description", .string "c"), ("input", echoFlag), ("output", echoFlag)]

def echoContract (id : String) : Tree := .object
  [("check", echoCheck), ("description", .string "e"), ("id", .string id), ("input", echoFlag),
    ("output", echoFlag), ("service", .string "echo"), ("serviceVersion", .number [0x31])]

def echoBoard : List UInt8 := spell echoTree

def echoDefinition (id : String) : List UInt8 := spell (echoContract id)

def echoDefinitions : TreeMap String (List UInt8) :=
  .ofList [("a", echoDefinition "a"), ("b", echoDefinition "b")]

def permissive : Capabilities where
  understands := fun _ => true
  contract := fun _ _ => .ok ()
  terms := fun _ => .ok ()
  precondition := fun _ _ => true
  localSupport := fun _ => true

def echoOutcome : Except Stop Prepared :=
  new ⟨Vector.replicate 32 0⟩ echoBoard echoDefinitions {} permissive

theorem spell_parse {t : Tree} (hlength : (spell t).length ≤ 1000)
    (hparse : Json.parse (spell t) = some t) (hfits : Fits {} t)
    (hcounts : t.depth ≤ 10 ∧ t.nodes ≤ 100) (hvalue : ofTree t = some t) :
    Document.parse (spell t) {} = .ok ⟨spell t, t⟩ :=
  Document.parse_tree rfl (hlength.trans (by decide)) hparse (within_iff.mpr
    ⟨hfits, hcounts.1.trans (by decide), hcounts.2.trans (by decide)⟩) hvalue

def echoOffering (id : String) : Offering :=
  ⟨id, "echo", 1, "e", ⟨Vector.replicate 32 0⟩, .provided, echoTerms id⟩

theorem echo_board_parse : ∃ b, Board.parse echoBoard {} = .ok b ∧
    b.document = ⟨echoBoard, echoTree⟩ ∧
    b.offerings.toList = ["a", "b"].map fun id => (id, echoOffering id) := by
  have hdocument : Document.parse echoBoard {} = .ok ⟨echoBoard, echoTree⟩ :=
    spell_parse (by decide +kernel) (by decide +kernel) (by decide +kernel) (by decide +kernel)
      (by decide +kernel)
  have hread : ((Board.parse echoBoard {}).toOption.any fun b =>
      b.offerings.toList = ["a", "b"].map fun id => (id, echoOffering id)) = true := by
    rw [Board.parse, hdocument]
    decide +kernel
  simp only [Option.any_eq_true, decide_eq_true_eq] at hread
  obtain ⟨b, hb, hofferings⟩ := hread
  have hparse := Outcome.toOption_some.mp hb
  have hown := hdocument.symm.trans (parse_ok hparse).1
  exact ⟨b, hparse, (Except.ok.inj hown).symm, hofferings⟩

def echoDefined (id : String) : Definition := ⟨⟨echoDefinition id, echoContract id⟩, .known⟩

theorem echo_definition_parse : ∀ id ∈ ["a", "b"],
    Definition.parse (echoDefinition id) (echoOffering id) {} = .ok (echoDefined id) := by
  have hdocument : ∀ id ∈ ["a", "b"], Document.parse (echoDefinition id) {} =
      .ok ⟨echoDefinition id, echoContract id⟩ := fun id hid =>
    spell_parse (by revert id; decide +kernel) (by revert id; decide +kernel)
      (by revert id; decide +kernel) (by revert id; decide +kernel) (by revert id; decide +kernel)
  have hbind : ∀ id ∈ ["a", "b"], bindOffering (echoContract id) (echoOffering id) = .ok () := by
    decide +kernel
  have hflag : validateSchema echoFlag = .ok .known := by decide +kernel
  have hcheck : validateCheck echoCheck = .ok .known := by decide +kernel
  intro id hid
  refine bind_ok.mpr ⟨_, hdocument id hid, bind_ok.mpr ⟨(), hbind id hid, ?_⟩⟩
  refine bind_ok.mpr ⟨echoFlag, rfl, bind_ok.mpr ⟨_, hflag, ?_⟩⟩
  refine bind_ok.mpr ⟨echoFlag, rfl, bind_ok.mpr ⟨_, hflag, ?_⟩⟩
  exact bind_ok.mpr ⟨echoCheck, rfl, bind_ok.mpr ⟨_, hcheck, rfl⟩⟩

def echoValidated : Validated :=
  ⟨((∅ : TreeMap String Definition).insert "a" (echoDefined "a")).insert "b" (echoDefined "b"),
    [(("echo", 1), "a")]⟩

theorem echo_validated : (["a", "b"].map fun id => (id, echoOffering id)).foldlM
    (addDefinition echoDefinitions {}) {} = .ok echoValidated := by
  have hresponse : ∀ id ∈ ["a", "b"], ((encodeResponse "definition"
      (echoDefined id).document).toOption.isSome = true) := by decide +kernel
  obtain ⟨_, ha⟩ := Option.isSome_iff_exists.mp (hresponse "a" (by decide))
  obtain ⟨_, hb⟩ := Option.isSome_iff_exists.mp (hresponse "b" (by decide))
  have hsame : (echoDefined "b").sameContract (echoDefined "a") = .ok true := by decide +kernel
  have hfirst : addDefinition echoDefinitions {} {} ("a", echoOffering "a") =
      .ok ⟨(∅ : TreeMap String Definition).insert "a" (echoDefined "a"), [(("echo", 1), "a")]⟩ :=
    bind_ok.mpr ⟨_, need_ok.mpr rfl, bind_ok.mpr ⟨_, echo_definition_parse "a" (by decide),
      bind_ok.mpr ⟨_, Outcome.toOption_some.mp ha, rfl⟩⟩⟩
  simp only [List.map_cons, List.map_nil, List.foldlM_cons, List.foldlM_nil]
  refine bind_ok.mpr ⟨_, hfirst, bind_ok.mpr ⟨_, ?_, rfl⟩⟩
  refine bind_ok.mpr ⟨_, need_ok.mpr rfl, bind_ok.mpr ⟨_, echo_definition_parse "b" (by decide),
    bind_ok.mpr ⟨_, Outcome.toOption_some.mp hb, ?_⟩⟩⟩
  exact bind_ok.mpr ⟨echoDefined "a", need_ok.mpr rfl, bind_ok.mpr ⟨true, hsame, rfl⟩⟩

/-- Both offerings of the board, and their definitions. -/
structure Echoes (p : Prepared) : Prop where
  bytes : p.bytes = 736
  document : p.board.document = ⟨echoBoard, echoTree⟩
  offerings : ∀ id ∈ ["a", "b"], p.board.offerings[id]? = some (echoOffering id)
  definitions : ∀ id ∈ ["a", "b"], p.definitions[id]? = some (echoDefined id)

theorem echo_prepared : ∃ p, echoOutcome = .ok p ∧ p.Echoes := by
  obtain ⟨b, hb, hdocument, hofferings⟩ := echo_board_parse
  let p : Prepared := ⟨⟨Vector.replicate 32 0⟩, b, echoValidated.definitions, 736⟩
  have hbytes : totalBytes echoBoard echoDefinitions = .ok 736 := by decide +kernel
  have hresponse : (encodeResponse "board" b.document).toOption.isSome = true := by
    rw [hdocument]
    decide +kernel
  obtain ⟨_, hresponse⟩ := Option.isSome_iff_exists.mp hresponse
  have hsize : echoDefinitions.size = b.offerings.size := by
    have hlength := congrArg List.length hofferings
    rw [TreeMap.length_toList] at hlength
    exact hlength.symm
  have hassess : p.assess permissive = .ok () := by
    rw [assess, hofferings]
    dsimp only [p]
    decide +kernel
  have hmade : echoOutcome = .ok p := by
    refine bind_ok.mpr ⟨(), rfl, guard_ok.mpr ⟨by decide, bind_ok.mpr ⟨736, hbytes, ?_⟩⟩⟩
    refine guard_ok.mpr ⟨by decide, bind_ok.mpr ⟨b, hb, bind_ok.mpr
      ⟨_, Outcome.toOption_some.mp hresponse, guard_ok.mpr ⟨not_not.mpr hsize, ?_⟩⟩⟩⟩
    exact bind_ok.mpr ⟨echoValidated, hofferings ▸ echo_validated, bind_ok.mpr ⟨(), hassess, rfl⟩⟩
  have hdefinitions : ∀ id ∈ ["a", "b"],
      echoValidated.definitions[id]? = some (echoDefined id) := by decide +kernel
  refine ⟨p, hmade, rfl, hdocument, fun id hid => ?_, hdefinitions⟩
  rw [← TreeMap.mem_toList_iff_getElem?_eq_some, hofferings]
  exact List.mem_map_of_mem hid

theorem new_coherent_sample : ∃ p, echoOutcome = .ok p ∧ p.Echoes ∧ p.Coherent {} := by
  obtain ⟨p, hp, hechoes⟩ := echo_prepared
  exact ⟨p, hp, hechoes, new_coherent hp⟩

end Prepared

end TalkSphere.Board
