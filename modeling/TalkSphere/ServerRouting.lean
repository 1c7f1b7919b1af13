import TalkSphere.ServerRuns

/-! Where the events of streams go. Consumers get owners that differ, so each event of a
stream has at most one: a consumer has seen what was delivered for it and nothing else. -/

namespace TalkSphere.Server

variable {π τ ι γ κ : Type} [SocketProvider π] [Clock τ] [Identity ι] [Cryptography γ]
  [Consumer κ] {s s₁ s' : Runtime π τ ι γ κ}

def concerns (owner : StreamOwner) (e : Event) : Bool :=
  e.stream?.any fun stream => stream.owner == owner

omit [Consumer κ] in
theorem serves_iff {stream : StreamHandle} {entry : StreamOwner × κ} :
    Router.serves stream entry = true ↔ stream.owner = entry.1 := by
  unfold Router.serves StreamHandle.authorize
  split_ifs with hc ho
  · exact absurd rfl hc
  · exact ⟨fun h => (by cases h), fun h => absurd h ho⟩
  · exact ⟨fun _ => not_not.mp ho, fun _ => rfl⟩

def fed (consumer : κ) (events : List Event) : κ :=
  events.foldl (fun k e => (Consumer.event k e).2) consumer

def served (events : List Event) (entry : StreamOwner × κ) : StreamOwner × κ :=
  (entry.1, fed entry.2 (events.filter (concerns entry.1)))

theorem served_append (events more : List Event) (entry : StreamOwner × κ) :
    served (events ++ more) entry = served more (served events entry) := by
  simp [served, fed]

theorem map_served_nil (consumers : List (StreamOwner × κ)) :
    consumers.map (served []) = consumers :=
  (List.map_congr_left fun _ _ => rfl).trans (List.map_id _)

theorem served_other {e : Event} {entry : StreamOwner × κ} (h : concerns entry.1 e = false) :
    served [e] entry = entry := by
  simp [served, fed, h]

theorem served_own {e : Event} {entry : StreamOwner × κ} (h : concerns entry.1 e = true) :
    served [e] entry = (Router.offer e entry).2 := by
  simp [served, fed, h, Router.offer]

theorem updateFirst_served {e : Event} {stream : StreamHandle} (he : e.stream? = some stream)
    {consumers consumers' : List (StreamOwner × κ)} {answer : StreamOwner × Except Failure Unit}
    (hnodup : (consumers.map Prod.fst).Nodup)
    (h : updateFirst (Router.serves stream) (Router.offer e) consumers =
      some (answer, consumers')) : consumers' = consumers.map (served [e]) := by
  have hconcerns : ∀ owner, concerns owner e = true ↔ stream.owner = owner := by
    simp [concerns, he]
  obtain ⟨before, entry, after, rfl, hserves, -, rfl⟩ := updateFirst_some h
  have hs := serves_iff.mp hserves
  rw [List.map_append, List.map_cons, List.nodup_middle, List.nodup_cons, ← List.map_append]
    at hnodup
  have hothers : ∀ other ∈ before ++ after, served [e] other = other := by
    refine fun other ho => served_other (Bool.eq_false_of_not_eq_true fun hc => hnodup.1 ?_)
    rw [← hs, (hconcerns other.1).mp hc]
    exact List.mem_map_of_mem ho
  have hsame : ∀ part ⊆ before ++ after, part.map (served [e]) = part := fun part hsub =>
    (List.map_congr_left fun other ho => hothers other (hsub ho)).trans (List.map_id part)
  rw [List.map_append, List.map_cons, served_own ((hconcerns entry.1).mpr hs),
    hsame before (List.subset_append_left _ _), hsame after (List.subset_append_right _ _)]

theorem route_served {r r' : Router κ} (hnodup : r.owners.Nodup) {e : Event} {d d' : Driver π τ ι γ}
    {handed : Option Event} (h : r.route d e = (.ok handed, r', d')) :
    r'.consumers = r.consumers.map (served [e]) := by
  unfold Router.route at h
  split at h
  case h_1 hnone =>
    cases h
    refine ((List.map_congr_left fun entry _ => served_other ?_).trans (List.map_id _)).symm
    simp [concerns, hnone]
  case h_2 stream hsome =>
    split at h
    case h_1 => cases (Prod.mk.inj h).1
    case h_2 hupdate =>
      cases h
      exact updateFirst_served hsome hnodup hupdate
    case h_3 hupdate =>
      cases h
      exact updateFirst_served hsome hnodup hupdate

def Routed (s s' : Runtime π τ ι γ κ) : Prop :=
  ∃ more, s'.delivered = s.delivered ++ more ∧
    s'.router.consumers = s.router.consumers.map (served more)

omit [Clock τ] [Identity ι] in
theorem Routed.same (hd : s'.delivered = s.delivered) (hr : s'.router = s.router) : Routed s s' :=
  ⟨[], by rw [hd, List.append_nil], by rw [hr, map_served_nil]⟩

omit [Clock τ] [Identity ι] in
theorem Routed.trans (h : Routed s s₁) (h' : Routed s₁ s') : Routed s s' := by
  obtain ⟨first, hd, hr⟩ := h
  obtain ⟨second, hd', hr'⟩ := h'
  refine ⟨first ++ second, by rw [hd', hd, List.append_assoc], ?_⟩
  rw [hr', hr, List.map_map]
  exact List.map_congr_left fun entry _ => (served_append first second entry).symm

omit [Clock τ] [Identity ι] in
theorem Routed.distinct (h : Routed s s') (hnodup : s.router.owners.Nodup) :
    s'.router.owners.Nodup := by
  obtain ⟨more, -, hr⟩ := h
  rw [Router.owners, hr, List.map_map]
  exact hnodup

theorem turnWith_routed (left : Nat) (changes : List (Driver.Change π τ ι γ)) {count : Nat}
    (hnodup : s.router.owners.Nodup) (h : s.turnWith left changes = (.ok count, s')) :
    Routed s s' := by
  induction left generalizing changes s count with
  | zero =>
    cases h
    exact .same rfl rfl
  | succ left ih =>
    rw [Runtime.turnWith] at h
    have hchange : (s.change changes.head?).delivered = s.delivered ∧
        (s.change changes.head?).router = s.router := by
      cases changes.head? <;> exact ⟨rfl, rfl⟩
    generalize s.change changes.head? = s₀ at hchange h
    have hpoll : s₀.poll = (s₀.node.driver.pollEvent.1, s₀.poll.2) := rfl
    rw [hpoll] at h
    split at h
    case h_1 hp =>
      obtain ⟨hanswer, rfl⟩ := Prod.mk.inj hp
      cases h
      refine .same (Eq.trans ?_ hchange.1) hchange.2
      simp [Runtime.poll, Runtime.setDriver, hanswer, Poll.event]
    case h_2 => cases (Prod.mk.inj h).1
    case h_3 e s₁ hp =>
      obtain ⟨hanswer, rfl⟩ := Prod.mk.inj hp
      split at h
      case h_1 => cases (Prod.mk.inj h).1
      case h_2 s₂ hconsume =>
        have hread : Routed s s₂ := by
          unfold Runtime.consume at hconsume
          split at hconsume
          case h_1 => cases (Prod.mk.inj hconsume).1
          case h_2 =>
            simp only at hconsume
            split at hconsume
            case h_1 => cases (Prod.mk.inj hconsume).1
            case h_2 hroute =>
              cases hconsume
              refine ⟨[e], ?_, ?_⟩
              · simp [Runtime.poll, Runtime.setDriver, hanswer, Poll.event, hchange.1]
              · rw [← hchange.2] at hnodup ⊢
                exact route_served hnodup hroute
        split at h
        case h_1 => cases (Prod.mk.inj h).1
        case h_2 hrest =>
          cases h
          exact hread.trans (ih changes.tail (hread.distinct hnodup) hrest)

theorem round_routed {r : Reading π τ ι γ} {done : Bool} (hnodup : s.router.owners.Nodup)
    (h : s.round r = (.ok done, s')) : Routed s s' := by
  unfold Runtime.round at h
  have hstop := stop_cases s r
  generalize s.stop r = out at hstop h
  have hsame : Routed s out.2 := by cases hstop <;> exact .same rfl rfl
  obtain ⟨result, s₁⟩ := out
  cases result with
  | error failure => cases (Prod.mk.inj h).1
  | ok =>
    simp only [Runtime.proceed] at h
    split at h
    case h_1 => cases (Prod.mk.inj h).1
    case h_2 s₂ hturn =>
      have hprogress := progress_cases s₂ r
      rw [h] at hprogress
      have hlast : Routed s₂ s' := by cases hprogress <;> exact .same rfl rfl
      exact (hsame.trans (turnWith_routed _ _ (hsame.distinct hnodup) hturn)).trans hlast

theorem loop_routed (readings : List (Reading π τ ι γ)) (hnodup : s.router.owners.Nodup)
    (h : ∀ failure, (s.loop readings).1 ≠ some (.error failure)) :
    Routed s (s.loop readings).2 := by
  induction readings generalizing s with
  | nil => exact .same rfl rfl
  | cons r rest ih =>
    rw [Runtime.loop] at h ⊢
    rcases hround : s.round r with ⟨result, s₁⟩
    rw [hround] at h
    rcases result with failure | done
    · exact absurd rfl (h failure)
    · have hrouted := round_routed hnodup hround
      cases done with
      | true => exact hrouted
      | false => exact hrouted.trans (ih (hrouted.distinct hnodup) h)

/-- Unless the run fails, every consumer has seen the events that were delivered for its
streams, each once and in their order, and no other. -/
theorem run_routed {config : Config} {n : Node π τ ι γ} {r : Router κ}
    (hcomposed : Composed config n r) (stopping : Bool) (readings : List (Reading π τ ι γ))
    (hrun : ∀ failure, (run n r stopping readings).1 ≠ some (.error failure)) :
    (run n r stopping readings).2.router.consumers =
      r.consumers.map (served (run n r stopping readings).2.delivered) := by
  obtain ⟨-, he⟩ | ⟨-, failure, driver, -, -, he⟩ | ⟨-, attempts, ready, s, hs, he⟩ :=
    run_cases hcomposed.idle stopping readings
  · rw [he]
    exact (map_served_nil r.consumers).symm
  · exact absurd (congrArg Prod.fst he) (hrun failure)
  · rw [he] at hrun ⊢
    obtain ⟨more, hd, hr⟩ := loop_routed readings (hs.router ▸ hcomposed.idle.distinct) hrun
    rw [hs.delivered, List.nil_append] at hd
    rw [hs.router, ← hd] at hr
    exact hr

def sampleChat :
    Except Failure StreamOwner × Router Sink × Driver MockSockets Nat MockIdentity MockCrypto :=
  ({} : Router Sink).register sampleNode.driver ⟨"chat", 1⟩ {}

def sampleFile :
    Except Failure StreamOwner × Router Sink × Driver MockSockets Nat MockIdentity MockCrypto :=
  sampleChat.2.1.register sampleChat.2.2 ⟨"file", 1⟩ {}

def sampleSelection (id : UInt32) (name : String) : List UInt8 :=
  Script.bytes .open_ id (((Open.new name 1).toOption.map Open.encode).getD []) .tagged

/-- A peer that authenticates, opens a stream of each protocol and sends on both. -/
def samplePeer : Script :=
  ⟨Script.bytes .hello 0
      (Hello.mk (.replicate 32 2) (.replicate 32 2) (.replicate 32 2)).encode .untagged ++
    Script.bytes .auth 0 (List.replicate 64 0) .untagged ++
    sampleSelection 1 "chat" ++ sampleSelection 3 "file" ++
    Script.bytes .data 3 [8] .tagged ++ Script.bytes .data 1 [7] .tagged, false⟩

def streamReadings : List (Reading MockSockets Nat MockIdentity MockCrypto) :=
  [⟨false, false, 0, 0, [sampleChange 0 [samplePeer], sampleChange 0 []]⟩,
    ⟨true, false, 1, 2, []⟩]

def sampleSeen (stream : StreamHandle) (name : String) (bytes : List UInt8) : List Event :=
  [.streamOpened ⟨stream.connection, .acceptor, ⟨.replicate 32 1⟩, ⟨.replicate 32 2⟩⟩ stream
    ⟨name, 1⟩, .data stream bytes]

def sampleServer : Node MockSockets Nat MockIdentity MockCrypto :=
  { sampleNode with driver := sampleFile.2.2 }

theorem sampleServer_composed : Composed samplePolicy sampleServer sampleFile.2.1 := by
  have hchat : ({} : Router Sink).register sampleNode.driver ⟨"chat", 1⟩ {} =
      (sampleChat.1, sampleChat.2.1, sampleChat.2.2) := rfl
  have hfile : sampleChat.2.1.register sampleChat.2.2 ⟨"file", 1⟩ {} =
      (sampleFile.1, sampleFile.2.1, sampleFile.2.2) := rfl
  have hfirst := sample_composed.registered hchat
  exact hfirst.registered hfile

theorem run_routed_sample :
    (run sampleServer sampleFile.2.1 false streamReadings).2.router.consumers.map
        (fun entry => entry.2.seen) =
      [sampleSeen ⟨⟨5⟩, ⟨0⟩, 1, by decide⟩ "chat" [7],
        sampleSeen ⟨⟨5⟩, ⟨1⟩, 3, by decide⟩ "file" [8]] ∧
    (run sampleServer sampleFile.2.1 false streamReadings).2.router.consumers =
      sampleFile.2.1.consumers.map
        (served (run sampleServer sampleFile.2.1 false streamReadings).2.delivered) := by
  have hanswer : (run sampleServer sampleFile.2.1 false streamReadings).1 = none := by
    decide +kernel
  refine ⟨by decide +kernel,
    run_routed sampleServer_composed false streamReadings fun failure h => ?_⟩
  rw [hanswer] at h
  cases h

end TalkSphere.Server
