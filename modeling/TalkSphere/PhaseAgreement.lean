import TalkSphere.ConnectionEvents
import TalkSphere.WireStages

/-! Two connections over one reliable byte stream in each direction. Either end knows the
mode of a frame from its position, so what one writes in a mode the other reads in it. -/

namespace TalkSphere

open Relation (ReflTransGen)

structure Pair (σ γ : Type) [Cryptography γ] where
  left : Connection σ γ
  right : Connection σ γ

namespace Pair

variable {σ γ ι : Type} [ByteStream σ] [Cryptography γ] [Identity ι] {p p' : Pair σ γ}

def Linked (p : Pair σ γ) : Prop :=
  p.left.wire.given <+: p.right.wire.accepted ∧ p.right.wire.given <+: p.left.wire.accepted

variable (ι) in
/-- One operation of one end, or a change outside it that loses nothing: the network, the
clock and the budgets behave as they like. -/
inductive Step : Pair σ γ → Pair σ γ → Prop
  | left {p : Pair σ γ} (op : Connection.Op σ γ ι) (offered : op.Offered)
      (faithful : op.Faithful p.left) (linked : Linked ⟨p.left.run op, p.right⟩) :
      Step p ⟨p.left.run op, p.right⟩
  | right {p : Pair σ γ} (op : Connection.Op σ γ ι) (offered : op.Offered)
      (faithful : op.Faithful p.right) (linked : Linked ⟨p.left, p.right.run op⟩) :
      Step p ⟨p.left, p.right.run op⟩

variable (ι) in
def Begun (c : Connection σ γ) : Prop :=
  ∃ socket options config now, ∃ (identity : ι), ∃ crypto crypto' resources resources' handle,
    Connection.beginShared socket options config now identity crypto resources handle =
      (.ok c, resources', crypto') ∧
    ByteStream.given socket = [] ∧ ByteStream.accepted socket = []

structure Orderly (c : Connection σ γ) : Prop where
  sound : c.Sound
  phased : c.wire.Phased
  quiet : c.Quiet

theorem Begun.orderly {c : Connection σ γ} (h : Begun ι c) : Orderly c := by
  obtain ⟨_, _, _, _, _, _, _, _, _, _, hb, hs⟩ := h
  refine ⟨.begin hb, .begin hb hs, ?_⟩
  obtain ⟨_, _, _, _, _, _, -, -, -, rfl⟩ := Connection.beginShared_ok hb
  exact fun e he => absurd he List.not_mem_nil

theorem Orderly.run {c : Connection σ γ} (h : Orderly c) {op : Connection.Op σ γ ι}
    (offered : op.Offered) (faithful : op.Faithful c) : Orderly (c.run op) :=
  ⟨h.sound.run offered, h.phased.run h.sound faithful, h.quiet.run op⟩

structure Ordered (p : Pair σ γ) : Prop where
  left : Orderly p.left
  right : Orderly p.right
  linked : p.Linked

theorem Ordered.step (hp : p.Ordered) (h : Step ι p p') : p'.Ordered := by
  cases h with
  | left op offered faithful linked => exact ⟨hp.left.run offered faithful, hp.right, linked⟩
  | right op offered faithful linked => exact ⟨hp.left, hp.right.run offered faithful, linked⟩

theorem Ordered.begun (hl : Begun ι p.left) (hr : Begun ι p.right) : p.Ordered := by
  have hnone : ∀ {c : Connection σ γ}, Begun ι c → c.wire.given = [] := by
    rintro c ⟨_, _, _, _, _, _, _, _, _, _, hb, hs, -⟩
    obtain ⟨_, _, _, _, _, _, -, -, -, rfl⟩ := Connection.beginShared_ok hb
    simp [Connection.Wire.given, Connection.wire, hs]
  refine ⟨hl.orderly, hr.orderly, ?_, ?_⟩
  · rw [hnone hl]
    exact List.nil_prefix
  · rw [hnone hr]
    exact List.nil_prefix

theorem Ordered.run (hp : p.Ordered) (h : ReflTransGen (Step ι) p p') : p'.Ordered := by
  induction h with
  | refl => exact hp
  | tail _ h ih => exact ih.step h

theorem Orderly.heard_prefix {c peer : Connection σ γ} (hc : Orderly c) (hp : Orderly peer)
    (linked : c.wire.given <+: peer.wire.accepted) :
    c.traffic.heard <+: WireLog.received peer.traffic.wrote :=
  hc.phased.logged.incoming.isPrefix hp.phased.logged.outgoing hc.phased.logged.unreserved
    ((hc.phased.logged.got.trans linked).trans hp.phased.logged.sent)

/-- In every run of two connections, whatever their roles and ports: every frame is read in
the mode it was written in, no reader reports a change of mode, and a connection that reports
its authentication has the peer's AUTH verified and its own AUTH written completely. -/
theorem protection_modes_agree {start : Pair σ γ} (hl : Begun ι start.left)
    (hr : Begun ι start.right) (h : ReflTransGen (Step ι) start p) :
    (p.left.traffic.heard <+: WireLog.received p.right.traffic.wrote ∧
      p.right.traffic.heard <+: WireLog.received p.left.traffic.wrote) ∧
    ∀ c ∈ [p.left, p.right], FramingError.phaseChanged ∉ c.traffic.faults ∧
      ∀ context, c.popEvent.1 = some (.authenticated context) →
        ∃ hs : Handshake γ, Connection.Attested hs c.wire.accepted c.traffic.wrote c.traffic.heard := by
  have hp := (Ordered.begun hl hr).run h
  refine ⟨⟨hp.left.heard_prefix hp.right hp.linked.1, hp.right.heard_prefix hp.left hp.linked.2⟩, ?_⟩
  have hend : ∀ c : Connection σ γ, Orderly c → FramingError.phaseChanged ∉ c.traffic.faults ∧
      ∀ context, c.popEvent.1 = some (.authenticated context) →
        ∃ hs : Handshake γ, Connection.Attested hs c.wire.accepted c.traffic.wrote c.traffic.heard :=
    fun c hc => ⟨hc.phased.logged.steady, fun context he =>
      hc.phased.logged.attested (hc.quiet.popEvent_session he nofun)⟩
  intro c hc
  simp only [List.mem_cons, List.not_mem_nil, or_false] at hc
  rcases hc with rfl | rfl
  · exact hend _ hp.left
  · exact hend _ hp.right

end Pair

/-- A stream in memory: what it can hand over next, what it has handed over, and what it has
accepted. -/
structure Pipe where
  waiting : List UInt8 := []
  given : List UInt8 := []
  accepted : List UInt8 := []

instance : ByteStream Pipe where
  pollRead s room :=
    if s.waiting = [] then (.pending, s)
    else (.ready (.ok (s.waiting.take room)),
      { s with waiting := s.waiting.drop room, given := s.given ++ s.waiting.take room })
  pollWrite s offer := (.ready (.ok offer.length), { s with accepted := s.accepted ++ offer })
  given := Pipe.given
  accepted := Pipe.accepted
  read h := by
    split_ifs at h <;> obtain ⟨rfl, rfl⟩ := Prod.mk.inj h <;> simp [Poll.input]
  write h := by
    obtain ⟨rfl, rfl⟩ := Prod.mk.inj h
    simp [Poll.output]

namespace Pair

def sampleEnd (role : ConnectionRole) (key : UInt8) :
    Except Disposition (Connection Pipe MockCrypto) × Resources × MockCrypto :=
  Connection.beginShared {} ⟨role, .unpinned⟩ ⟨⟨2, 2, maxFrameBytes, maxPayloadBytes⟩, 10⟩ 0
    (MockIdentity.mk (.replicate 32 key)) { entropy := .replicate 32 key : MockCrypto }
    { limits := ⟨2, 2, maxFrameBytes, maxPayloadBytes⟩ } ⟨⟨0⟩⟩

abbrev PipeOp := Connection.Op Pipe MockCrypto MockIdentity

def pipePoll (key : UInt8) : PipeOp :=
  .poll 0 Registry.sample ⟨.replicate 32 key⟩ { entropy := .replicate 32 key }

def carry (a b : Connection Pipe MockCrypto) : PipeOp :=
  .world { waiting := a.wire.accepted.drop b.wire.given.length, given := b.wire.given
           accepted := b.wire.accepted } b.resources.outboundUsed b.resources.connectionsUsed

def turnLeft (p : Pair Pipe MockCrypto) : Pair Pipe MockCrypto :=
  ⟨(p.left.run (carry p.right p.left)).run (pipePoll 1), p.right⟩

def turnRight (p : Pair Pipe MockCrypto) : Pair Pipe MockCrypto :=
  ⟨p.left, (p.right.run (carry p.left p.right)).run (pipePoll 2)⟩

instance (p : Pair Pipe MockCrypto) : Decidable p.Linked :=
  inferInstanceAs (Decidable (_ ∧ _))

theorem carry_faithful (a b : Connection Pipe MockCrypto) : (carry a b).Faithful b := by
  intro s hs
  simp [ByteStream.given, ByteStream.accepted, Connection.Wire.given, Connection.Wire.accepted,
    Connection.wire, Option.mem_def.mp hs]

theorem carry_same (a b : Connection Pipe MockCrypto) :
    (b.run (carry a b)).wire.given = b.wire.given ∧
      (b.run (carry a b)).wire.accepted = b.wire.accepted :=
  Connection.Wire.world_same (v := b.wire) fun s hs => carry_faithful a b s hs

theorem turnLeft_steps {p : Pair Pipe MockCrypto} (h : p.Linked) (h' : p.turnLeft.Linked) :
    ReflTransGen (Step MockIdentity) p p.turnLeft := by
  have hcarried : Linked ⟨p.left.run (carry p.right p.left), p.right⟩ := by
    rwa [Linked, (carry_same _ _).1, (carry_same _ _).2]
  have h₁ : Step MockIdentity p ⟨p.left.run (carry p.right p.left), p.right⟩ :=
    .left (carry p.right p.left) trivial (carry_faithful _ _) hcarried
  have h₂ : Step MockIdentity ⟨p.left.run (carry p.right p.left), p.right⟩ p.turnLeft :=
    .left (pipePoll 1) trivial trivial h'
  exact (ReflTransGen.single h₁).tail h₂

theorem turnRight_steps {p : Pair Pipe MockCrypto} (h : p.Linked) (h' : p.turnRight.Linked) :
    ReflTransGen (Step MockIdentity) p p.turnRight := by
  have hcarried : Linked ⟨p.left, p.right.run (carry p.left p.right)⟩ := by
    rwa [Linked, (carry_same _ _).1, (carry_same _ _).2]
  have h₁ : Step MockIdentity p ⟨p.left, p.right.run (carry p.left p.right)⟩ :=
    .right (carry p.left p.right) trivial (carry_faithful _ _) hcarried
  have h₂ : Step MockIdentity ⟨p.left, p.right.run (carry p.left p.right)⟩ p.turnRight :=
    .right (pipePoll 2) trivial trivial h'
  exact (ReflTransGen.single h₁).tail h₂

def sample : Pair Pipe MockCrypto where
  left := (sampleEnd .initiator 1).1.toOption.get (by decide +kernel)
  right := (sampleEnd .acceptor 2).1.toOption.get (by decide +kernel)

theorem sampleEnd_begun {role : ConnectionRole} {key : UInt8} {c : Connection Pipe MockCrypto}
    (h : (sampleEnd role key).1.toOption = some c) : Begun MockIdentity c := by
  cases hb : (sampleEnd role key).1 with
  | error e => simp [hb, Except.toOption] at h
  | ok c₀ =>
    obtain rfl : c₀ = c := by simpa [hb, Except.toOption] using h
    exact ⟨{}, _, _, _, _, _, _, _, _, _, Prod.ext hb rfl, rfl, rfl⟩

theorem sample_begun : Begun MockIdentity sample.left ∧ Begun MockIdentity sample.right :=
  ⟨sampleEnd_begun (Option.some_get (by decide +kernel)).symm,
    sampleEnd_begun (Option.some_get (by decide +kernel)).symm⟩

/-- Two ends that reach their sessions, each with the frames of the other. -/
theorem protection_modes_agree_sessions :
    let p := sample.turnLeft.turnRight.turnLeft.turnRight
    p.left.session.isSome ∧ p.right.session.isSome ∧
      p.left.traffic.heard.length = 2 ∧ p.right.traffic.heard.length = 2 ∧
      p.left.traffic.heard <+: WireLog.received p.right.traffic.wrote ∧
      p.right.traffic.heard <+: WireLog.received p.left.traffic.wrote := by
  have hl₀ : sample.Linked := (Ordered.begun sample_begun.1 sample_begun.2).linked
  have hl₁ : sample.turnLeft.Linked := by decide +kernel
  have hl₂ : sample.turnLeft.turnRight.Linked := by decide +kernel
  have hl₃ : sample.turnLeft.turnRight.turnLeft.Linked := by decide +kernel
  obtain ⟨hl₄, hleft, hright, hheard⟩ : sample.turnLeft.turnRight.turnLeft.turnRight.Linked ∧
      sample.turnLeft.turnRight.turnLeft.turnRight.left.session.isSome ∧
      sample.turnLeft.turnRight.turnLeft.turnRight.right.session.isSome ∧
      sample.turnLeft.turnRight.turnLeft.turnRight.left.traffic.heard.length = 2 ∧
      sample.turnLeft.turnRight.turnLeft.turnRight.right.traffic.heard.length = 2 := by
    decide +kernel
  have hrun := (((turnLeft_steps hl₀ hl₁).trans (turnRight_steps hl₁ hl₂)).trans
    (turnLeft_steps hl₂ hl₃)).trans (turnRight_steps hl₃ hl₄)
  exact ⟨hleft, hright, hheard.1, hheard.2,
    (protection_modes_agree sample_begun.1 sample_begun.2 hrun).1⟩

end Pair

end TalkSphere
