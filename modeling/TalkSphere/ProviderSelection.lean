import TalkSphere.ProviderRuns

/-! Terms selected from an owner's own publication. A caller may present any snapshot it was ever
given; what it gets is one offering with the definition that was checked against it, and only
while both still stand in the current publication. -/

namespace TalkSphere.Board

open Json (Tree)
open Outcome (bind_ok)
open Std (TreeMap)

def Surroundings.later (env : Surroundings) : Surroundings where
  moment n := env.moment (n + 1)
  caps n := env.caps (n + 1)
  held n := env.held (n + 1)

namespace Provider

variable {σ : Type}

section

variable (p : Provider) (env : Surroundings) (context : Context)

def checkSnapshot (snapshot : Snapshot) : Except Stop Unit :=
  if snapshot.domain ≠ p.domain ∨ snapshot.publisher ≠ p.publisher then refuse .denied else .ok ()

def definition (snapshot : Snapshot) (id : String) : Except Stop Definition := do
  p.checkSnapshot snapshot
  let data ← need .missing snapshot.data
  let d ← need .missing data.value.definitions[id]?
  context.check p.authority (env.moment 0) p.publisher .read d.document.source.length
  .ok d

def select (textBytes : Tree → Nat) (s : State σ) (snapshot : Snapshot) (r : Request) :
    Except Stop Selection := do
  p.checkSnapshot snapshot
  context.check p.authority (env.moment 0) p.publisher .select snapshot.board.length
  let data ← need .missing snapshot.data
  let o ← need .missing data.value.board.offerings[r.id]?
  let d ← need .missing data.value.definitions[r.id]?
  let selected ← Board.select o d p.publisher r (env.caps 0)
  p.currentSelection env.later context textBytes s selected
  .ok selected

end

/-! What an owner issues. -/

def Made (p : Provider) (value : Prepared) : Prop :=
  ∃ board definitions caps, Prepared.new p.publisher board definitions p.limits caps = .ok value

def Own (p : Provider) (snapshot : Snapshot) : Prop :=
  ∃ data, snapshot = p.snapshot data ∧ p.Made data.value

inductive Issues (p : Provider) (P : Persistence σ) (s₀ : State σ) : Snapshot → Prop
  | published {w : World σ} {env : Surroundings} {context : Context} {candidate : Prepared}
      {snapshot : Snapshot} {s : State σ} (h : Reaches p P s₀ w)
      (hrun : p.publish P env context w.state candidate = (.ok snapshot, s)) :
      Issues p P s₀ snapshot
  | read {w : World σ} {env : Surroundings} {context : Context} {snapshot : Snapshot}
      (h : Reaches p P s₀ w) (hrun : p.read env context w.state = .ok snapshot) :
      Issues p P s₀ snapshot

variable {p : Provider} {P : Persistence σ} {env : Surroundings} {context : Context}
  {s s' s₀ : State σ} {snapshot : Snapshot}

theorem publish_own {candidate : Prepared}
    (h : p.publish P env context s candidate = (.ok snapshot, s')) :
    p.Own snapshot ∧ s'.current = some snapshot := by
  rw [publish] at h
  split at h
  case h_1 => cases (Prod.mk.inj h).1
  case h_2 value hvet =>
    dsimp only at h
    split_ifs at h with _ hfull
    · cases (Prod.mk.inj h).1
    · cases (Prod.mk.inj h).1
    split at h
    case h_1 => cases (Prod.mk.inj h).1
    case h_2 =>
      split at h
      case h_1 => cases (Prod.mk.inj h).1
      case h_2 =>
        obtain ⟨hsnapshot, rfl⟩ := Prod.mk.inj h
        obtain rfl := Except.ok.inj hsnapshot
        exact ⟨⟨_, rfl, vet_ok hvet⟩, rfl⟩

theorem own_of_prepare {record : Record} {caps : Capabilities} {value : Prepared} {address : Nat}
    (hpublisher : record.publisher = p.publisher)
    (hprepare : record.prepare p.limits caps = .ok value) : p.Own (p.snapshot ⟨address, value⟩) :=
  ⟨_, rfl, record.board, record.definitions, caps, hpublisher ▸ hprepare⟩

def Owned (p : Provider) (s : State σ) : Prop :=
  ∀ snapshot, s.current = some snapshot → p.Own snapshot

theorem owned_opened {storage : σ} {caps : Capabilities} (h : Opened p P storage caps s) :
    p.Owned s := by
  cases h with
  | empty => exact fun _ h => by cases h
  | found _ hpublisher hprepare =>
    intro snapshot h
    obtain rfl := Option.some.inj h
    exact own_of_prepare hpublisher hprepare

theorem Owned.step {w w' : World σ} (h : p.Owned w.state) (hstep : Step p P w w') :
    p.Owned w'.state := by
  cases hstep with
  | @published _ _ _ reply _ _ hrun _ =>
    cases reply with
    | error e =>
      intro snapshot hs
      cases publish_published hrun with
      | refused hsteady => exact h snapshot (hsteady.current ▸ hs)
      | failed hsteady => exact h snapshot (hsteady.current ▸ hs)
    | ok snapshot =>
      obtain ⟨hown, hcurrent⟩ := publish_own hrun
      intro snapshot' hs
      obtain rfl := Option.some.inj (hcurrent.symm.trans hs)
      exact hown
  | recovered hrun =>
    intro snapshot hs
    cases recover_recovered hrun with
    | cleared => cases hs
    | found _ hpublisher hprepare =>
      obtain rfl := Option.some.inj hs
      exact own_of_prepare hpublisher hprepare
  | unrecovered hrun =>
    intro snapshot hs
    cases recover_recovered hrun with
    | refused hsteady => exact h snapshot (hsteady.current ▸ hs)
  | read => exact h
  | selected => exact h
  | callers => exact h

theorem owned_reaches {w : World σ} {storage : σ} {caps : Capabilities}
    (hopened : Opened p P storage caps s₀) (h : Reaches p P s₀ w) : p.Owned w.state := by
  induction h with
  | start => exact owned_opened hopened
  | step _ hstep ih => exact ih.step hstep

theorem issues_own {storage : σ} {caps : Capabilities} (hopened : Opened p P storage caps s₀)
    (h : Issues p P s₀ snapshot) : p.Own snapshot := by
  cases h with
  | published _ hrun => exact (publish_own hrun).1
  | read h hrun => exact owned_reaches hopened h snapshot (read_ok hrun).2

/-! What a publication that was prepared holds. -/

theorem Made.parsed {value : Prepared} (h : p.Made value) {id : String} {o : Offering}
    {d : Definition} (ho : value.board.offerings[id]? = some o)
    (hd : value.definitions[id]? = some d) :
    o.id = id ∧ ∃ bytes, Definition.parse bytes o p.limits = .ok d := by
  obtain ⟨board, definitions, caps, h⟩ := h
  obtain ⟨-, -, -, hboard, -, -, ⟨v, hv, hpassed⟩, -, -⟩ := Prepared.new_ok h
  obtain ⟨-, -, -, ps, ws, -, -, -, -, hindex⟩ := parse_ok hboard
  have hentry := TreeMap.mem_toList_iff_getElem?_eq_some.mpr ho
  obtain ⟨d', bytes, hd', -, hparse, -⟩ := hpassed.parsed hentry
  rw [hv] at hd'
  obtain rfl := Option.some.inj (hd'.symm.trans hd)
  exact ⟨(hindex.holds.mp ho).2, bytes, hparse⟩

theorem select_terms {o : Offering} {d : Definition} {publisher : IdentityId} {r : Request}
    {caps : Capabilities} {selected : Selection} (h : Board.select o d publisher r caps = .ok selected) :
    (o.service = r.service ∧ o.version = r.version ∧ o.description = r.description) ∧
      selected.offering = o ∧ selected.definition = d ∧ selected.publisher = publisher ∧
      (selected.requester, selected.provider) = match o.direction with
        | .provided => (r.other, publisher)
        | .wanted => (publisher, r.other) := by
  obtain ⟨hterms, h⟩ := guard_ok.mp h
  obtain ⟨⟨⟩, -, h⟩ := bind_ok.mp h
  obtain rfl := Except.ok.inj h
  simp only [not_or, not_not] at hterms
  exact ⟨hterms, rfl, rfl, rfl, rfl⟩

theorem currentSelection_data {textBytes : Tree → Nat} {selected : Selection}
    (h : p.currentSelection env context textBytes s selected = .ok ()) :
    s.uncertain = false ∧ ∃ data, s.data = some data ∧
      data.value.board.offerings[selected.offering.id]?.map (·.source) =
        some selected.offering.source ∧
      data.value.definitions[selected.offering.id]?.map (·.document.value) =
        some selected.definition.document.value := by
  obtain ⟨⟨⟩, -, h⟩ := bind_ok.mp h
  obtain ⟨-, h⟩ := guard_ok.mp h
  obtain ⟨huncertain, h⟩ := guard_ok.mp h
  obtain ⟨data, hdata, h⟩ := bind_ok.mp h
  obtain ⟨hsame, -⟩ := guard_ok.mp h
  obtain ⟨hoffering, hdefinition⟩ := not_or.mp hsame
  exact ⟨Bool.eq_false_iff.mpr huncertain, data, need_ok.mp hdata, not_not.mp hoffering,
    not_not.mp hdefinition⟩

structure Grants (p : Provider) (content : σ → Option Record) (w : World σ) (snapshot : Snapshot)
    (r : Request) (selected : Selection) : Prop where
  /-- The terms are those asked for, from the one revision that was presented. -/
  revision : ∃ data, snapshot.data = some data ∧
    data.value.board.offerings[r.id]? = some selected.offering ∧
    data.value.definitions[r.id]? = some selected.definition
  terms : selected.offering.id = r.id ∧ selected.offering.service = r.service ∧
    selected.offering.version = r.version ∧ selected.offering.description = r.description
  checked : ∃ bytes, Definition.parse bytes selected.offering p.limits = .ok selected.definition
  roles : selected.publisher = p.publisher ∧
    (selected.requester, selected.provider) = match selected.offering.direction with
      | .provided => (r.other, p.publisher)
      | .wanted => (p.publisher, r.other)
  /-- The publication that the storage holds has the same terms under the same id. -/
  stored : ∃ value record caps, content w.state.storage = some record ∧
    record.prepare p.limits caps = .ok value ∧
    value.board.offerings[r.id]?.map (·.source) = some selected.offering.source ∧
    value.definitions[r.id]?.map (·.document.value) = some selected.definition.document.value

theorem select_grants {content : σ → Option Record} {storage : σ} {caps : Capabilities}
    {w : World σ} {textBytes : Tree → Nat} {r : Request} {selected : Selection}
    (hP : Contract P content) (hopened : Opened p P storage caps s₀)
    (h : Reaches p P s₀ w) (hissued : Issues p P s₀ snapshot)
    (hselect : p.select env context textBytes w.state snapshot r = .ok selected) :
    Grants p content w snapshot r selected := by
  obtain ⟨data, rfl, hmade⟩ := issues_own hopened hissued
  obtain ⟨⟨⟩, -, hselect⟩ := bind_ok.mp hselect
  obtain ⟨⟨⟩, -, hselect⟩ := bind_ok.mp hselect
  obtain ⟨data', hdata, hselect⟩ := bind_ok.mp hselect
  obtain rfl := Option.some.inj (need_ok.mp hdata)
  obtain ⟨o, ho, hselect⟩ := bind_ok.mp hselect
  obtain ⟨d, hd, hselect⟩ := bind_ok.mp hselect
  obtain ⟨selected', hchosen, hselect⟩ := bind_ok.mp hselect
  obtain ⟨⟨⟩, hcurrent, hselect⟩ := bind_ok.mp hselect
  obtain rfl := Except.ok.inj hselect
  obtain ⟨hterms, rfl, rfl, hpublisher, hroles⟩ := select_terms hchosen
  obtain ⟨hid, hparse⟩ := hmade.parsed (need_ok.mp ho) (need_ok.mp hd)
  obtain ⟨huncertain, now, hnow, hoffering, hdefinition⟩ := currentSelection_data hcurrent
  rw [hid] at hoffering hdefinition
  constructor
  case revision => exact ⟨data, rfl, need_ok.mp ho, need_ok.mp hd⟩
  case terms => exact ⟨hid, hterms⟩
  case checked => exact hparse
  case roles => exact ⟨hpublisher, hroles⟩
  case stored =>
    obtain ⟨current, hcurrent', hdata'⟩ := Option.bind_eq_some_iff.mp hnow
    have hshows := (inv_reaches hP hopened h).coherent huncertain
    rw [hcurrent'] at hshows
    generalize content w.state.storage = stored at hshows
    cases hshows with
    | @some _ record hshows =>
      obtain ⟨shown, hshown, hsame⟩ := hshows.data
      obtain rfl := Option.some.inj (hshown.symm.trans hdata')
      obtain ⟨data', rfl, _, _, caps, hnew⟩ := owned_reaches hopened h current hcurrent'
      obtain rfl := Option.some.inj hdata'
      refine ⟨_, record, caps, rfl, ?_, hoffering, hdefinition⟩
      rw [← hsame.prepare_eq]
      exact Record.prepare_fromPrepared hnew

theorem checkSnapshot_ok (h : p.checkSnapshot snapshot = .ok ()) :
    snapshot.domain = p.domain ∧ snapshot.publisher = p.publisher := by
  obtain ⟨hok, -⟩ := guard_ok.mp h
  obtain ⟨hdomain, hpublisher⟩ := not_or.mp hok
  exact ⟨not_not.mp hdomain, not_not.mp hpublisher⟩

theorem definition_parsed {storage : σ} {caps : Capabilities}
    (hopened : Opened p P storage caps s₀) (hissued : Issues p P s₀ snapshot) {id : String}
    {d : Definition} (h : p.definition env context snapshot id = .ok d) :
    ∃ data, snapshot.data = some data ∧ data.value.definitions[id]? = some d ∧
      ∀ o, data.value.board.offerings[id]? = some o →
        ∃ bytes, Definition.parse bytes o p.limits = .ok d := by
  obtain ⟨data, rfl, hmade⟩ := issues_own hopened hissued
  obtain ⟨⟨⟩, -, h⟩ := bind_ok.mp h
  obtain ⟨data', hdata, h⟩ := bind_ok.mp h
  obtain rfl := Option.some.inj (need_ok.mp hdata)
  obtain ⟨d', hd, h⟩ := bind_ok.mp h
  obtain ⟨⟨⟩, -, h⟩ := bind_ok.mp h
  obtain rfl := Except.ok.inj h
  exact ⟨data, rfl, need_ok.mp hd, fun o ho => (hmade.parsed ho (need_ok.mp hd)).2⟩

/-- What an owner gives out of a snapshot, at any point of a run. -/
structure Dealing (p : Provider) (P : Persistence σ) (content : σ → Option Record)
    (s₀ : State σ) (w : World σ) : Prop where
  foreign : ∀ env context textBytes snapshot r selected,
    p.select env context textBytes w.state snapshot r = .ok selected →
    snapshot.domain = p.domain ∧ snapshot.publisher = p.publisher
  select : ∀ env context textBytes snapshot r selected, Issues p P s₀ snapshot →
    p.select env context textBytes w.state snapshot r = .ok selected →
    Grants p content w snapshot r selected
  definition : ∀ env context snapshot id d, Issues p P s₀ snapshot →
    p.definition env context snapshot id = .ok d →
    ∃ data, snapshot.data = some data ∧ data.value.definitions[id]? = some d ∧
      ∀ o, data.value.board.offerings[id]? = some o →
        ∃ bytes, Definition.parse bytes o p.limits = .ok d
  /-- While it is not known what the storage holds, nothing is selected. -/
  unknown : .error .unknown ∈ w.since → ∀ env context textBytes snapshot r selected,
    p.select env context textBytes w.state snapshot r ≠ .ok selected

theorem select_current {textBytes : Tree → Nat} {r : Request} {selected : Selection}
    (h : p.select env context textBytes s snapshot r = .ok selected) :
    p.checkSnapshot snapshot = .ok () ∧ s.uncertain = false := by
  obtain ⟨⟨⟩, hsnapshot, h⟩ := bind_ok.mp h
  obtain ⟨⟨⟩, -, h⟩ := bind_ok.mp h
  obtain ⟨data, -, h⟩ := bind_ok.mp h
  obtain ⟨o, -, h⟩ := bind_ok.mp h
  obtain ⟨d, -, h⟩ := bind_ok.mp h
  obtain ⟨selected', -, h⟩ := bind_ok.mp h
  obtain ⟨⟨⟩, hcurrent, -⟩ := bind_ok.mp h
  exact ⟨hsnapshot, currentSelection_ok hcurrent⟩

theorem dealing_reaches {content : σ → Option Record} {publisher : IdentityId}
    {authority : Authority} {limits : Limits} {domain : Nat} {caps : Capabilities} {storage : σ}
    {w : World σ} (hP : Contract P content)
    (hopened : openWith P publisher authority limits domain caps storage = .ok (p, s₀))
    (h : Reaches p P s₀ w) : Dealing p P content s₀ w := by
  have hopened := (openWith_opened hopened).2.2
  constructor
  case foreign => exact fun env context textBytes snapshot r selected hselect =>
    checkSnapshot_ok (select_current hselect).1
  case select => exact fun env context textBytes snapshot r selected => select_grants hP hopened h
  case definition => exact fun env context snapshot id d hissued hd =>
    definition_parsed hopened hissued hd
  case unknown =>
    intro hin env context textBytes snapshot r selected hselect
    have huncertain := (inv_reaches hP hopened h).known hin
    rw [(select_current hselect).2] at huncertain
    cases huncertain

/-! A caller selects one of two offerings. -/

def echoSurroundings : Surroundings :=
  { sampleSurroundings with caps := fun _ => Prepared.permissive }

def echoContext (action : Action) : Context :=
  ⟨⟨0, ⟨Vector.replicate 32 0⟩, action, 1000⟩, 1, false⟩

def echoRequest : Request := ⟨"b", "echo", 1, "e", ⟨Vector.replicate 32 1⟩, true⟩

def echoState (value : Prepared) : State (Option Record × Bool) where
  storage := (some (Record.fromPrepared value), false)
  current := some (sampleOwner.snapshot ⟨0, value⟩)
  pins := [0]
  next := 1
  commits := [.ok ()]

theorem echoContext_check (action : Action) {n k : Nat} (h : n ≤ 1000) :
    (echoContext action).check sampleOwner.authority (echoSurroundings.moment k)
      sampleOwner.publisher action n = .ok () := by
  have hlimit : ¬ n > (echoContext action).grant.bytes := not_lt.mpr h
  simp [Context.check, Authority.check, echoSurroundings, sampleSurroundings, sampleOwner, hlimit]
  simp [echoContext]

variable {value : Prepared}

theorem echo_published (hmade : Prepared.echoOutcome = .ok value) (h : value.Echoes) :
    sampleOwner.publish wavering echoSurroundings (echoContext .publish) { storage := (none, true) }
      value = (.ok (sampleOwner.snapshot ⟨0, value⟩), echoState value) := by
  have hbytes : value.bytes ≤ 1000 := by
    rw [h.bytes]
    decide
  obtain ⟨-, -, -, -, -, -, -, hassess, hpublisher⟩ := Prepared.new_ok hmade
  have hvet : sampleOwner.vet echoSurroundings (echoContext .publish) value = .ok value := by
    have hagain : Prepared.new sampleOwner.publisher value.board.document.source
        (value.definitions.map fun _ d => d.document.source) {} Prepared.permissive =
        .ok value := by
      have hagain := Record.prepare_fromPrepared hmade
      rwa [Record.prepare, Record.fromPrepared, hpublisher] at hagain
    refine bind_ok.mpr ⟨(), echoContext_check .publish hbytes, ?_⟩
    refine guard_ok.mpr ⟨not_not.mpr hpublisher,
      guard_ok.mpr ⟨not_lt.mpr (hbytes.trans (by decide)), ?_⟩⟩
    exact bind_ok.mpr ⟨value, hagain, bind_ok.mpr ⟨(), echoContext_check .publish hbytes, rfl⟩⟩
  have hconfirm : sampleOwner.confirm echoSurroundings (echoContext .publish) value = .ok () :=
    bind_ok.mpr ⟨(), hassess, echoContext_check .publish hbytes⟩
  simp only [publish, hvet, hconfirm]
  rfl

def echoChosen : Selection :=
  ⟨Prepared.echoOffering "b", Prepared.echoDefined "b", sampleOwner.publisher, echoRequest.other,
    sampleOwner.publisher⟩

theorem echo_chosen : Board.select (Prepared.echoOffering "b") (Prepared.echoDefined "b")
    sampleOwner.publisher echoRequest Prepared.permissive = .ok echoChosen := rfl

theorem echo_board (h : value.Echoes) : value.board.document.source.length = 356 := by
  rw [h.document]
  decide +kernel

theorem echo_selected (h : value.Echoes) :
    sampleOwner.select echoSurroundings (echoContext .select) (fun _ => 0)
      (echoState value) (sampleOwner.snapshot ⟨0, value⟩) echoRequest = .ok echoChosen := by
  have ho := h.offerings "b" (by decide)
  have hd := h.definitions "b" (by decide)
  have hsource := (echo_board h).le.trans (show 356 ≤ 1000 by decide)
  refine bind_ok.mpr ⟨(), rfl, bind_ok.mpr ⟨(), echoContext_check .select hsource, ?_⟩⟩
  refine bind_ok.mpr ⟨_, rfl, bind_ok.mpr ⟨_, need_ok.mpr ho, bind_ok.mpr ⟨_, need_ok.mpr hd, ?_⟩⟩⟩
  refine bind_ok.mpr ⟨_, echo_chosen, bind_ok.mpr ⟨(), ?_, rfl⟩⟩
  refine bind_ok.mpr ⟨(), echoContext_check .select (Nat.zero_le _), ?_⟩
  refine guard_ok.mpr ⟨not_not.mpr rfl, guard_ok.mpr ⟨by rintro ⟨⟩, ?_⟩⟩
  refine bind_ok.mpr ⟨_, rfl, guard_ok.mpr ⟨?_, rfl⟩⟩
  simp [echoChosen, Prepared.echoOffering, ho, hd]

def echoWorld (value : Prepared) : World (Option Record × Bool) :=
  ⟨echoState value, received (fun _ => 0) (.ok (sampleOwner.snapshot ⟨0, value⟩)), 0⟩

theorem echo_reaches (hmade : Prepared.echoOutcome = .ok value) (h : value.Echoes) :
    Reaches sampleOwner wavering { storage := (none, true) } (echoWorld value) :=
  .step .start (.published (echo_published hmade h)
    ⟨fun _ _ => rfl, fun _ _ => rfl, fun _ _ => rfl⟩)

theorem dealing_reaches_wavering : ∃ value selected, Prepared.echoOutcome = .ok value ∧
    value.Echoes ∧
    Dealing sampleOwner wavering Prod.fst { storage := (none, true) } (echoWorld value) ∧
    Grants sampleOwner Prod.fst (echoWorld value) (sampleOwner.snapshot ⟨0, value⟩) echoRequest
      selected := by
  have hopen : openWith wavering sampleOwner.publisher ⟨0⟩ {} 0 .unavailable (none, true) =
      .ok (sampleOwner, { storage := (none, true) }) := rfl
  obtain ⟨value, hmade, hechoes⟩ := Prepared.echo_prepared
  have hdealing := dealing_reaches wavering_contract hopen (echo_reaches hmade hechoes)
  exact ⟨value, echoChosen, hmade, hechoes, hdealing, hdealing.select _ _ _ _ _ _
    (.published .start (echo_published hmade hechoes)) (echo_selected hechoes)⟩

end Provider

end TalkSphere.Board
