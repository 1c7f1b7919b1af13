import TalkSphere.Provider

/-! Runs of an owner, with callers that keep, copy and drop its snapshots as they like. What it
serves is what its storage holds, and it never has more revisions alive than its limit. -/

namespace TalkSphere.Board

open Json (Tree)
open Outcome (bind_ok)
open Retention (Held Onward alive_iff mem_retained receive_pos tracked_empty
  tracked_of_room)

/-- What a storage adapter promises about the record it holds. -/
structure Contract {σ : Type} (P : Persistence σ) (content : σ → Option Record) : Prop where
  kept : ∀ s, Option.Rel Record.Same (content (P.load s).2) (content s)
  loaded : ∀ s r, (P.load s).1 = .ok r → Option.Rel Record.Same r (content s)
  applied : ∀ s r, (P.commit s r).1 = .ok () →
    Option.Rel Record.Same (content (P.commit s r).2) (some r)
  either : ∀ s r, (P.commit s r).1 = .error .unknown →
    Option.Rel Record.Same (content (P.commit s r).2) (some r) ∨
      Option.Rel Record.Same (content (P.commit s r).2) (content s)
  unchanged : ∀ s r e, (P.commit s r).1 = .error e → e ≠ .unknown →
    Option.Rel Record.Same (content (P.commit s r).2) (content s)

/-- A snapshot has the publisher, the board and the definitions of a record. -/
structure Shows (snapshot : Snapshot) (r : Record) : Prop where
  publisher : snapshot.publisher = r.publisher
  board : snapshot.board = r.board
  data : ∃ data, snapshot.data = some data ∧ (Record.fromPrepared data.value).Same r

def Surroundings.Follows (env : Surroundings) (before after : Held) : Prop :=
  Onward before (env.held 0) ∧ Onward (env.held 0) (env.held 1) ∧ Onward (env.held 1) after

theorem Surroundings.Follows.onward {env : Surroundings} {before after : Held}
    (h : env.Follows before after) : Onward before after := (h.1.trans h.2.1).trans h.2.2

theorem Surroundings.Follows.alive {env : Surroundings} {before after own : Held}
    (h : env.Follows before after) {r : Nat} (hr : r ∈ Retention.Alive own after) :
    r ∈ Retention.Alive own (env.held 0) ∧ r ∈ Retention.Alive own before := by
  obtain hown | hheld := alive_iff.mp hr
  · exact ⟨alive_iff.mpr (.inl hown), alive_iff.mpr (.inl hown)⟩
  · have hfirst := h.2.1.pos (h.2.2.pos hheld)
    exact ⟨alive_iff.mpr (.inr hfirst), alive_iff.mpr (.inr (h.1.pos hfirst))⟩

def received (held : Held) : Except Stop Snapshot → Held
  | .ok snapshot => match snapshot.data with
    | some data => held.receive data.address
    | none => held
  | .error _ => held

structure World (σ : Type) where
  state : State σ
  held : Held
  /-- How many commits there had been when the owner last recovered. -/
  mark : Nat

def World.since {σ : Type} (w : World σ) : List (Except Error Unit) :=
  w.state.commits.take (w.state.commits.length - w.mark)

namespace Provider

variable {σ : Type}

section

variable (p : Provider) (P : Persistence σ)

inductive Step : World σ → World σ → Prop
  | published {w : World σ} {env : Surroundings} {context : Context} {candidate : Prepared}
      {reply : Except Stop Snapshot} {s : State σ} {after : Held}
      (hrun : p.publish P env context w.state candidate = (reply, s))
      (hfollows : env.Follows w.held after) : Step w ⟨s, received after reply, w.mark⟩
  | recovered {w : World σ} {env : Surroundings} {context : Context} {s : State σ} {after : Held}
      (hrun : p.recover P env context w.state = (.ok (), s))
      (hfollows : env.Follows w.held after) : Step w ⟨s, after, s.commits.length⟩
  | unrecovered {w : World σ} {env : Surroundings} {context : Context} {e : Stop} {s : State σ}
      {after : Held} (hrun : p.recover P env context w.state = (.error e, s))
      (hfollows : env.Follows w.held after) : Step w ⟨s, after, w.mark⟩
  | read {w : World σ} {env : Surroundings} {context : Context} {reply : Except Stop Snapshot}
      {after : Held} (hrun : p.read env context w.state = reply)
      (hfollows : env.Follows w.held after) : Step w { w with held := received after reply }
  | selected {w : World σ} {env : Surroundings} {context : Context} {textBytes : Tree → Nat}
      {selected : Selection} {reply : Except Stop Unit} {after : Held}
      (hrun : p.currentSelection env context textBytes w.state selected = reply)
      (hfollows : env.Follows w.held after) : Step w { w with held := after }
  | callers {w : World σ} {after : Held} (hfollows : Onward w.held after) :
      Step w { w with held := after }

inductive Reaches (s₀ : State σ) : World σ → Prop
  | start : Reaches s₀ ⟨s₀, fun _ => 0, 0⟩
  | step {w w' : World σ} (h : Reaches s₀ w) (hstep : Step p P w w') : Reaches s₀ w'

end

section

variable {p : Provider} {P : Persistence σ} {content : σ → Option Record}

/-! Coherence. -/

theorem rel_refl (a : Option Record) : Option.Rel Record.Same a a := by
  cases a with
  | none => exact .none
  | some r => exact .some (.refl r)

theorem rel_symm {a b : Option Record} (h : Option.Rel Record.Same a b) :
    Option.Rel Record.Same b a := by
  cases h with
  | none => exact .none
  | some hab => exact .some hab.symm

theorem rel_trans {a b c : Option Record} (h : Option.Rel Record.Same a b)
    (h' : Option.Rel Record.Same b c) : Option.Rel Record.Same a c := by
  cases h with
  | none => exact h'
  | some hab =>
    cases h' with
    | some hbc => exact .some (hab.trans hbc)

theorem shows_rel {a : Option Snapshot} {b c : Option Record} (h : Option.Rel Shows a b)
    (h' : Option.Rel Record.Same c b) : Option.Rel Shows a c := by
  cases h with
  | none =>
    cases h' with
    | none => exact .none
  | some hab =>
    cases h' with
    | some hcb =>
      obtain ⟨data, hdata, hsame⟩ := hab.data
      exact .some ⟨hab.publisher.trans hcb.publisher.symm, hab.board.trans hcb.board.symm, data,
        hdata, hsame.trans hcb.symm⟩

theorem snapshot_shows (data : Shared Prepared) (h : data.value.publisher = p.publisher) :
    Shows (p.snapshot data) (Record.fromPrepared data.value) :=
  ⟨h.symm, rfl, data, rfl, .refl _⟩

structure Inv (content : σ → Option Record) (w : World σ) : Prop where
  coherent : w.state.uncertain = false →
    Option.Rel Shows w.state.current (content w.state.storage)
  known : .error .unknown ∈ w.since → w.state.uncertain = true
  mark : w.mark ≤ w.state.commits.length

theorem since_cons {w : World σ} (h : w.mark ≤ w.state.commits.length) {s : State σ} {held : Held}
    {answer : Except Error Unit} (hcommits : s.commits = answer :: w.state.commits) :
    World.since ⟨s, held, w.mark⟩ = answer :: w.since := by
  rw [World.since, hcommits, List.length_cons, Nat.succ_sub h, List.take_succ_cons, World.since]

theorem since_eq {w : World σ} {s : State σ} {held : Held} (hcommits : s.commits = w.state.commits) :
    World.since ⟨s, held, w.mark⟩ = w.since := by
  rw [World.since, World.since, hcommits]

variable {w : World σ} {env : Surroundings} {context : Context} {s : State σ} {held : Held}

theorem Inv.published (hP : Contract P content) (h : Inv content w)
    {reply : Except Stop Snapshot} (hp : Published p P env w.state reply s) :
    Inv content ⟨s, held, w.mark⟩ := by
  cases hp with
  | refused hsteady hstorage huncertain hcommits =>
    constructor
    case coherent => exact fun hs => hsteady.current ▸ hstorage ▸ h.coherent (huncertain ▸ hs)
    case known => exact fun hin => huncertain ▸ h.known (since_eq hcommits ▸ hin)
    case mark => exact hcommits ▸ h.mark
  | @failed candidate e _ hsteady hopen hcommit huncertain hcommits =>
    have hstorage : s.storage = (P.commit w.state.storage (Record.fromPrepared candidate)).2 := by
      rw [hcommit]
    have hanswer := congrArg Prod.fst hcommit
    constructor
    case coherent =>
      intro hs
      have hne : e ≠ .unknown := of_decide_eq_false (huncertain.symm.trans hs)
      have hcontent := hP.unchanged _ _ e hanswer hne
      rw [← hstorage] at hcontent
      rw [hsteady.current]
      exact shows_rel (h.coherent hopen) hcontent
    case known =>
      intro hin
      rw [since_cons h.mark hcommits] at hin
      obtain heq | hin := List.mem_cons.mp hin
      · exact huncertain.trans (decide_eq_true (Except.error.inj heq).symm)
      · exact nomatch hopen.symm.trans (h.known hin)
    case mark =>
      rw [hcommits]
      exact h.mark.trans (Nat.le_succ _)
  | @done candidate storage hopen hpublisher hroom hcommit =>
    have happlied := hP.applied _ _ (congrArg Prod.fst hcommit)
    rw [hcommit] at happlied
    have hcommits : (.ok () :: w.state.commits : List (Except Error Unit)) = _ := rfl
    constructor
    case coherent => exact fun _ => shows_rel (.some (snapshot_shows _ hpublisher)) happlied
    case known =>
      intro hin
      rw [since_cons h.mark hcommits] at hin
      obtain heq | hin := List.mem_cons.mp hin
      · exact nomatch heq
      · exact nomatch hopen.symm.trans (h.known hin)
    case mark => exact h.mark.trans (Nat.le_succ _)

theorem content_load (hP : Contract P content) {storage : σ}
    (h : storage = w.state.storage ∨ storage = (P.load w.state.storage).2) :
    Option.Rel Record.Same (content storage) (content w.state.storage) := by
  obtain rfl | rfl := h
  · exact rel_refl _
  · exact hP.kept _

theorem loaded_shows (hP : Contract P content) {storage storage' : σ} {record : Record}
    {value : Prepared} {caps : Capabilities} {address : Nat}
    (hload : P.load storage = (.ok (some record), storage'))
    (hpublisher : record.publisher = p.publisher)
    (hprepare : record.prepare p.limits caps = .ok value) :
    Option.Rel Shows (some (p.snapshot ⟨address, value⟩)) (content storage') := by
  have hsame := Record.prepare_same hprepare
  have hkept := hP.kept storage
  have hloaded := hP.loaded storage (some record) (congrArg Prod.fst hload)
  rw [hload] at hkept
  have hshows : Shows (p.snapshot ⟨address, value⟩) record :=
    ⟨hpublisher.symm, hsame.board, ⟨address, value⟩, rfl, hsame⟩
  exact shows_rel (.some hshows) (rel_trans hkept (rel_symm hloaded))

theorem loaded_none (hP : Contract P content) {storage storage' : σ}
    (hload : P.load storage = (.ok none, storage')) :
    Option.Rel Shows none (content storage') := by
  have hkept := hP.kept storage
  have hloaded := hP.loaded storage none (congrArg Prod.fst hload)
  rw [hload] at hkept
  exact shows_rel .none (rel_trans hkept (rel_symm hloaded))

theorem Inv.unrecovered (hP : Contract P content) (h : Inv content w) {e : Stop}
    (hr : Recovered p P env w.state (.error e) s) : Inv content ⟨s, held, w.mark⟩ := by
  cases hr with
  | refused hsteady hstorage huncertain hcommits =>
    constructor
    case coherent =>
      intro hs
      have hshows := h.coherent (huncertain ▸ hs)
      rw [hsteady.current]
      exact shows_rel hshows (content_load hP hstorage)
    case known => exact fun hin => huncertain ▸ h.known (since_eq hcommits ▸ hin)
    case mark => exact hcommits ▸ h.mark

theorem inv_recovered (hP : Contract P content) (hr : Recovered p P env w.state (.ok ()) s) :
    Inv content ⟨s, held, s.commits.length⟩ := by
  have hsince : World.since ⟨s, held, s.commits.length⟩ = [] := by simp [World.since]
  constructor
  case coherent =>
    intro
    cases hr with
    | cleared hload => exact loaded_none hP hload
    | found hload hpublisher hprepare => exact loaded_shows hP hload hpublisher hprepare
  case known =>
    intro hin
    rw [hsince] at hin
    exact absurd hin List.not_mem_nil
  case mark => exact Nat.le_refl _

theorem inv_opened (hP : Contract P content) {storage : σ} {caps : Capabilities}
    (h : Opened p P storage caps s) : Inv content ⟨s, held, 0⟩ := by
  cases h with
  | empty hload => exact ⟨fun _ => loaded_none hP hload, nofun, Nat.le_refl _⟩
  | found hload hpublisher hprepare =>
    exact ⟨fun _ => loaded_shows hP hload hpublisher hprepare, nofun, Nat.le_refl _⟩

theorem Inv.step (hP : Contract P content) {w' : World σ} (h : Inv content w)
    (hstep : Step p P w w') : Inv content w' := by
  cases hstep with
  | published hrun => exact h.published hP (publish_published hrun)
  | recovered hrun => exact inv_recovered hP (recover_recovered hrun)
  | unrecovered hrun => exact h.unrecovered hP (recover_recovered hrun)
  | read => exact ⟨h.coherent, h.known, h.mark⟩
  | selected => exact ⟨h.coherent, h.known, h.mark⟩
  | callers => exact ⟨h.coherent, h.known, h.mark⟩

theorem inv_reaches (hP : Contract P content) {storage : σ} {caps : Capabilities} {s₀ : State σ}
    (hopened : Opened p P storage caps s₀) (h : Reaches p P s₀ w) : Inv content w := by
  induction h with
  | start => exact inv_opened hP hopened
  | step _ hstep ih => exact ih.step hP hstep

/-! What the operations need. -/

theorem read_ok {snapshot : Snapshot} (h : p.read env context s = .ok snapshot) :
    s.uncertain = false ∧ s.current = some snapshot := by
  obtain ⟨⟨⟩, -, h⟩ := bind_ok.mp h
  obtain ⟨huncertain, h⟩ := guard_ok.mp h
  obtain ⟨current, hcurrent, h⟩ := bind_ok.mp h
  obtain ⟨⟨⟩, -, h⟩ := bind_ok.mp h
  obtain rfl := Except.ok.inj h
  exact ⟨Bool.eq_false_iff.mpr huncertain, need_ok.mp hcurrent⟩

theorem currentSelection_ok {textBytes : Tree → Nat} {selected : Selection}
    (h : p.currentSelection env context textBytes s selected = .ok ()) : s.uncertain = false := by
  obtain ⟨⟨⟩, -, h⟩ := bind_ok.mp h
  obtain ⟨-, h⟩ := guard_ok.mp h
  obtain ⟨huncertain, -⟩ := guard_ok.mp h
  exact Bool.eq_false_iff.mpr huncertain

theorem read_congr {s' : State σ} (hcurrent : s'.current = s.current)
    (huncertain : s'.uncertain = s.uncertain) : p.read env context s' = p.read env context s := by
  rw [read, read, hcurrent, huncertain]

structure Coherent (p : Provider) (P : Persistence σ) (content : σ → Option Record)
    (w : World σ) : Prop where
  read : ∀ env context snapshot, p.read env context w.state = .ok snapshot →
    ∃ r, content w.state.storage = some r ∧ Shows snapshot r
  unread : .error .unknown ∈ w.since →
    ∀ env context snapshot, p.read env context w.state ≠ .ok snapshot
  unselected : .error .unknown ∈ w.since → ∀ env context textBytes selected,
    p.currentSelection env context textBytes w.state selected ≠ .ok ()
  unpublished : .error .unknown ∈ w.since → ∀ env context candidate snapshot s,
    p.publish P env context w.state candidate ≠ (.ok snapshot, s)
  publish : ∀ env context candidate reply s,
    p.publish P env context w.state candidate = (reply, s) →
      s.storage = w.state.storage ∧ s.commits = w.state.commits ∨
      ∃ r answer, P.commit w.state.storage r = (answer, s.storage) ∧
        s.commits = answer :: w.state.commits
  recover : ∀ env context reply s, p.recover P env context w.state = (reply, s) →
    (s.storage = w.state.storage ∨ s.storage = (P.load w.state.storage).2) ∧
      s.commits = w.state.commits
  failed : ∀ env context candidate e s,
    p.publish P env context w.state candidate = (.error e, s) → e ≠ .refused .unknown →
      (∀ env context, p.read env context s = p.read env context w.state) ∧
      Option.Rel Record.Same (content s.storage) (content w.state.storage)

theorem publish_commits {candidate : Prepared} {reply : Except Stop Snapshot} {s' : State σ}
    (h : p.publish P env context s candidate = (reply, s')) :
    s'.storage = s.storage ∧ s'.commits = s.commits ∨
      ∃ r answer, P.commit s.storage r = (answer, s'.storage) ∧ s'.commits = answer :: s.commits := by
  cases publish_published h with
  | refused _ hstorage _ hcommits => exact .inl ⟨hstorage, hcommits⟩
  | failed _ _ hcommit _ hcommits => exact .inr ⟨_, _, hcommit, hcommits⟩
  | done _ _ _ hcommit => exact .inr ⟨_, _, hcommit, rfl⟩

theorem recover_loads {reply : Except Stop Unit} {s' : State σ}
    (h : p.recover P env context s = (reply, s')) :
    (s'.storage = s.storage ∨ s'.storage = (P.load s.storage).2) ∧ s'.commits = s.commits := by
  cases recover_recovered h with
  | refused _ hstorage _ hcommits => exact ⟨hstorage, hcommits⟩
  | cleared hload => exact ⟨.inr (congrArg Prod.snd hload).symm, rfl⟩
  | found hload => exact ⟨.inr (congrArg Prod.snd hload).symm, rfl⟩

theorem publish_failed (hP : Contract P content) {candidate : Prepared} {e : Stop} {s' : State σ}
    (h : p.publish P env context s candidate = (.error e, s')) (he : e ≠ .refused .unknown) :
    s'.current = s.current ∧ s'.uncertain = s.uncertain ∧
      Option.Rel Record.Same (content s'.storage) (content s.storage) := by
  cases publish_published h with
  | refused hsteady hstorage huncertain _ =>
    exact ⟨hsteady.current, huncertain, hstorage ▸ rel_refl _⟩
  | @failed candidate e _ hsteady hopen hcommit huncertain _ =>
    have hne : e ≠ .unknown := fun heq => he (congrArg _ heq)
    have hkept := hP.unchanged _ _ e (congrArg Prod.fst hcommit) hne
    rw [hcommit] at hkept
    exact ⟨hsteady.current, huncertain.trans ((decide_eq_false hne).trans hopen.symm), hkept⟩

theorem publish_open {candidate : Prepared} {snapshot : Snapshot} {s' : State σ}
    (h : p.publish P env context s candidate = (.ok snapshot, s')) : s.uncertain = false := by
  cases publish_published h with
  | done hopen => exact hopen

theorem coherent_reaches {publisher : IdentityId} {authority : Authority} {limits : Limits}
    {domain : Nat} {caps : Capabilities} {storage : σ} {s₀ : State σ}
    (hP : Contract P content)
    (hopened : openWith P publisher authority limits domain caps storage = .ok (p, s₀))
    (h : Reaches p P s₀ w) : Coherent p P content w := by
  have hinv := inv_reaches hP (openWith_opened hopened).2.2 h
  constructor
  case read =>
    intro env context snapshot hread
    obtain ⟨huncertain, hcurrent⟩ := read_ok hread
    have hshows := hinv.coherent huncertain
    rw [hcurrent] at hshows
    generalize content w.state.storage = stored at hshows
    cases hshows with
    | some hshows => exact ⟨_, rfl, hshows⟩
  case unread =>
    intro hin env context snapshot hread
    exact nomatch (hinv.known hin).symm.trans (read_ok hread).1
  case unselected =>
    intro hin env context textBytes selected hselected
    exact nomatch (hinv.known hin).symm.trans (currentSelection_ok hselected)
  case unpublished =>
    intro hin env context candidate snapshot s hrun
    exact nomatch (hinv.known hin).symm.trans (publish_open hrun)
  case publish => exact fun env context candidate reply s => publish_commits
  case recover => exact fun env context reply s => recover_loads
  case failed =>
    intro env context candidate e s hrun he
    obtain ⟨hcurrent, huncertain, hkept⟩ := publish_failed hP hrun he
    exact ⟨fun _ _ => read_congr hcurrent huncertain, hkept⟩

def wavering : Persistence (Option Record × Bool) where
  load s := (.ok s.1, s)
  commit s r := (if s.2 then .ok () else .error .unknown, (some r, false))

theorem wavering_contract : Contract wavering Prod.fst where
  kept s := rel_refl s.1
  loaded s r h := Except.ok.inj h ▸ rel_refl s.1
  applied s r _ := rel_refl _
  either s r _ := .inl (rel_refl _)
  unchanged s r e h he := by
    rcases s with ⟨r', _ | _⟩
    · exact absurd (Except.error.inj h).symm he
    · exact nomatch h

def sampleOwner : Provider := ⟨⟨0⟩, {}, ⟨Vector.replicate 32 0⟩, 0⟩

def sampleSurroundings : Surroundings := ⟨fun _ => ⟨0, true⟩, fun _ => .unavailable, fun _ _ => 0⟩

def sampleContext (action : Action) : Context :=
  ⟨⟨0, ⟨Vector.replicate 32 0⟩, action, 100⟩, 1, false⟩

def samplePublish (s : State (Option Record × Bool)) (candidate : Prepared) :=
  sampleOwner.publish wavering sampleSurroundings (sampleContext .publish) s candidate

def sampleRun (candidate : Prepared) : Bool × Bool × Bool :=
  let first := samplePublish { storage := (none, true) } candidate
  let read := sampleOwner.read sampleSurroundings (sampleContext .read) first.2
  let second := samplePublish first.2 candidate
  (first.1.toOption.isSome, read.toOption.isSome, second.2.commits.any fun
    | .error .unknown => true
    | _ => false)

theorem coherent_reaches_wavering : ∃ w w' snapshot,
    Reaches sampleOwner wavering { storage := (none, true) } w ∧
    sampleOwner.read sampleSurroundings (sampleContext .read) w.state = .ok snapshot ∧
    Coherent sampleOwner wavering Prod.fst w ∧
    Reaches sampleOwner wavering { storage := (none, true) } w' ∧
    .error .unknown ∈ w'.since ∧ Coherent sampleOwner wavering Prod.fst w' := by
  have hrun : Prepared.sampleOutcome.toOption.map sampleRun = some (true, true, true) := by
    decide +kernel
  have hopen : openWith wavering sampleOwner.publisher ⟨0⟩ {} 0 .unavailable (none, true) =
      .ok (sampleOwner, { storage := (none, true) }) := rfl
  have hidle : ∀ held, sampleSurroundings.Follows held fun _ => 0 :=
    fun held => ⟨fun _ _ => rfl, fun _ _ => rfl, fun _ _ => rfl⟩
  obtain ⟨candidate, -, hrun⟩ := Option.map_eq_some_iff.mp hrun
  rcases hfirst : samplePublish { storage := (none, true) } candidate with ⟨reply, s⟩
  rcases hsecond : samplePublish s candidate with ⟨reply', s'⟩
  simp only [sampleRun, hfirst, hsecond, Prod.mk.injEq, List.any_eq_true] at hrun
  obtain ⟨-, hread, answer, hanswer, hunknown⟩ := hrun
  obtain ⟨snapshot, hsnapshot⟩ := Option.isSome_iff_exists.mp hread
  have hw : Reaches sampleOwner wavering { storage := (none, true) }
      ⟨s, received (fun _ => 0) reply, 0⟩ := .step .start (.published hfirst (hidle _))
  have hw' := Reaches.step hw (.published hsecond (hidle _))
  have hin : .error .unknown ∈ s'.commits := by
    split at hunknown
    · exact hanswer
    · exact nomatch hunknown
  refine ⟨_, _, snapshot, hw, Outcome.toOption_some.mp hsnapshot,
    coherent_reaches wavering_contract hopen hw, hw', ?_,
    coherent_reaches wavering_contract hopen hw'⟩
  simpa [World.since] using hin

/-! Retention. -/

/-- The revisions that are alive are pinned, and no more of them than the limit. -/
abbrev Retained (p : Provider) (w : World σ) : Prop :=
  Retention.Tracked w.state.own w.held w.state.pins p.limits.snapshots

theorem own_pos {r : Nat} : 0 < s.own r ↔ s.data.map (·.address) = some r := by
  by_cases h : s.data.map (·.address) = some r <;> simp [State.own, h]

theorem own_congr {s' : State σ} (h : s'.current = s.current) : s'.own = s.own := by
  funext r
  rw [State.own, State.own, State.data, State.data, h]

variable {after : Held}

theorem retained_steady (h : Retained p w) (hfollows : env.Follows w.held after)
    (hsteady : Steady env w.state s) {mark : Nat} : Retained p ⟨s, after, mark⟩ := by
  have hown : s.own = w.state.own := own_congr hsteady.current
  apply h.shrink
  · intro r hr
    exact (hfollows.alive (hown ▸ hr)).2
  · intro r hpin hr
    exact hsteady.pins r hpin (hfollows.alive (hown ▸ hr)).1

theorem released_gone (h : Retained p w) (hfollows : env.Follows w.held after) {c : Nat}
    (hc : (w.state.retain (env.held 0)).released (env.held 1) = some c) :
    c ∈ (w.state.retain (env.held 0)).pins ∧ after c = 0 := by
  obtain ⟨haddress, hone⟩ := Option.filter_eq_some_iff.mp hc
  have hown : 0 < w.state.own c := own_pos.mpr haddress
  constructor
  · exact mem_retained (h.listed c (alive_iff.mpr (.inl hown))) (alive_iff.mpr (.inl hown))
  · have hstrong : w.state.own c + env.held 1 c = 1 := of_decide_eq_true hone
    exact hfollows.2.2 c (by omega)

theorem retained_pin (h : Retained p w) (hfollows : env.Follows w.held after)
    (hroom : ¬ (w.state.retain (env.held 0)).full (env.held 1) p.limits) {own held : Held}
    (hnew : ∀ r ∈ Retention.Alive own held, r = w.state.next ∨ 0 < after r) :
    Retention.Tracked own held (w.state.retain (env.held 0)).pin.pins p.limits.snapshots := by
  apply tracked_of_room (Nat.lt_of_not_le hroom) fun c hc => (released_gone h hfollows hc).1
  intro r hr
  obtain heq | hafter := hnew r hr
  · exact .inl heq
  · obtain ⟨hfirst, hbefore⟩ := hfollows.alive (alive_iff.mpr (.inr hafter))
    refine .inr ⟨mem_retained (h.listed r hbefore) hfirst, fun hc => ?_⟩
    exact absurd (released_gone h hfollows hc).2 (Nat.ne_of_gt hafter)

theorem alive_snapshot {data : Shared Prepared} {held : Held} {r : Nat}
    (hcurrent : s.current = some (p.snapshot data)) (hr : r ∈ Retention.Alive s.own held) :
    r = data.address ∨ 0 < held r := by
  obtain hown | hheld := alive_iff.mp hr
  · have haddress := own_pos.mp hown
    rw [State.data, hcurrent] at haddress
    exact .inl (Option.some.inj haddress).symm
  · exact .inr hheld

theorem Retained.step {w' : World σ} (h : Retained p w) (hstep : Step p P w w') :
    Retained p w' := by
  cases hstep with
  | published hrun hfollows =>
    cases publish_published hrun with
    | refused hsteady => exact retained_steady h hfollows hsteady
    | failed hsteady => exact retained_steady h hfollows hsteady
    | done _ _ hroom =>
      apply retained_pin h hfollows hroom
      intro r hr
      obtain heq | hheld := alive_snapshot rfl hr
      · exact .inl heq
      · exact receive_pos hheld
  | recovered hrun hfollows =>
    cases recover_recovered hrun with
    | cleared => exact h.onward hfollows.onward fun r hr => nomatch own_pos.mp hr
    | found _ _ _ hroom =>
      exact retained_pin h hfollows hroom fun r hr => alive_snapshot rfl hr
  | unrecovered hrun hfollows =>
    cases recover_recovered hrun with
    | refused hsteady => exact retained_steady h hfollows hsteady
  | @read _ _ reply _ hrun hfollows =>
    have hkept := h.onward hfollows.onward fun _ hr => hr
    cases reply with
    | error e => exact hkept
    | ok snapshot =>
      obtain ⟨-, hcurrent⟩ := read_ok hrun
      rcases hdata : snapshot.data with _ | data
      · rw [received, hdata]
        exact hkept
      · rw [received, hdata]
        apply hkept.receive
        rw [own_pos, State.data, hcurrent]
        exact congrArg (Option.map _) hdata
  | selected _ hfollows => exact h.onward hfollows.onward fun _ hr => hr
  | callers hon => exact h.onward hon fun _ hr => hr

theorem retained_opened {storage : σ} {caps : Capabilities} (hpositive : 0 < p.limits.snapshots)
    (h : Opened p P storage caps s) : Retained p ⟨s, fun _ => 0, 0⟩ := by
  cases h with
  | empty => exact tracked_empty fun r hr => nomatch own_pos.mp hr
  | found =>
    have hroom : ([] : List Nat).length - (none : Option Nat).toList.length < p.limits.snapshots :=
      hpositive
    apply tracked_of_room hroom nofun
    intro r hr
    exact .inl ((alive_snapshot rfl hr).resolve_right (Nat.lt_irrefl 0))

theorem retained_reaches {storage : σ} {caps : Capabilities} {s₀ : State σ}
    (hpositive : 0 < p.limits.snapshots) (hopened : Opened p P storage caps s₀)
    (h : Reaches p P s₀ w) : Retained p w := by
  induction h with
  | start => exact retained_opened hpositive hopened
  | step _ hstep ih => exact ih.step hstep

/-- However callers keep and copy snapshots, no more revisions are alive than the limit. -/
theorem revisions_bounded {publisher : IdentityId} {authority : Authority} {limits : Limits}
    {domain : Nat} {caps : Capabilities} {storage : σ} {s₀ : State σ}
    (hopened : openWith P publisher authority limits domain caps storage = .ok (p, s₀))
    (h : Reaches p P s₀ w) : (Retention.Alive w.state.own w.held).encard ≤ limits.snapshots := by
  obtain ⟨hvalidate, rfl, hopened⟩ := openWith_opened hopened
  have hpositive := (Limits.validate_ok.mp hvalidate).positive
  exact (retained_reaches hpositive.2.2.2.2.2.2.2.2.1 hopened h).bounded

end

end Provider

end TalkSphere.Board
