import Mathlib.Data.List.Infix
import Mathlib.Data.List.Nodup
import Mathlib.Logic.Function.Basic
import Mathlib.Logic.Relation
import TalkSphere.Integrity

/-! Two integrity endpoints with matching keys and an attacker between them. Every
produced tag is recorded with what it was produced for; a frame the attacker delivers
verifies only where such a record says so. -/

namespace TalkSphere

open Cryptography (IntegrityKey)
open Relation (ReflTransGen)

inductive Side
  | left
  | right
  deriving DecidableEq

def Side.other : Side → Side
  | .left => .right
  | .right => .left

@[simp] theorem Side.other_other (s : Side) : s.other.other = s := by
  cases s <;> rfl

theorem Side.other_ne (s : Side) : s.other ≠ s := by
  cases s <;> decide

theorem Side.eq_or_other (s t : Side) : t = s ∨ t = s.other := by
  cases s <;> cases t <;> decide

def WireFrame.content (frame : WireFrame) : FrameHeader × List UInt8 :=
  (frame.header, frame.payload)

structure TagRecord (K : Type) where
  key : K
  nonce : List UInt8
  data : List UInt8
  tag : Tag
  deriving DecidableEq

structure Guarded (K : Type) where
  integrity : Integrity K
  sealed : List (FrameHeader × List UInt8) := []
  nonces : List (List UInt8) := []
  verified : List (FrameHeader × List UInt8) := []
  failed : Bool := false

structure Channel (K : Type) where
  ends : Side → Guarded K
  tags : List (TagRecord K) := []

def Channel.start {K : Type} (k : Side → DirectionKeys K) : Channel K where
  ends s := { integrity := .new ⟨k s, k s.other⟩ }

namespace Guarded

variable {γ : Type} [Cryptography γ]

def seal_ (g : Guarded (IntegrityKey γ)) (frame : WireFrame) (crypto : γ) :
    Guarded (IntegrityKey γ) × List (TagRecord (IntegrityKey γ)) :=
  match g.integrity.seal_ frame crypto with
  | (.error _, integrity) => ({ g with integrity }, [])
  | (.ok out, integrity) =>
    match g.integrity.send with
    | none => ({ g with integrity }, [])
    | some direction =>
      let used := nonce direction.noncePrefix g.integrity.sendSequence
      ({ g with integrity, sealed := g.sealed ++ [out.content], nonces := g.nonces ++ [used] },
        (out.tag.map (TagRecord.mk direction.key used out.authenticatedData)).toList)

def verify (g : Guarded (IntegrityKey γ)) (frame : WireFrame) (crypto : γ) :
    Guarded (IntegrityKey γ) :=
  match g.integrity.verify frame crypto with
  | (.ok released, integrity) =>
    { g with integrity, verified := g.verified ++ [released.wire.content] }
  | (.error _, integrity) => { g with integrity, failed := true }

end Guarded

namespace Channel

variable {γ : Type} [Cryptography γ]

def Genuine (tags : List (TagRecord (IntegrityKey γ))) (frame : WireFrame) (crypto : γ) : Prop :=
  ∀ key nonce data tag, frame.tag = some tag →
    Cryptography.verifyTag crypto key nonce data tag = .ok () → ⟨key, nonce, data, tag⟩ ∈ tags

def put {K : Type} (c : Channel K) (s : Side) (g : Guarded K) (new : List (TagRecord K) := []) :
    Channel K where
  ends := Function.update c.ends s g
  tags := c.tags ++ new

/-- Any call on either endpoint; the frames to verify are the attacker's choice. -/
inductive Step : Channel (IntegrityKey γ) → Channel (IntegrityKey γ) → Prop
  | seal_ {c : Channel (IntegrityKey γ)} (s : Side) (frame : WireFrame) (crypto : γ) :
      Step c (c.put s ((c.ends s).seal_ frame crypto).1 ((c.ends s).seal_ frame crypto).2)
  | sent {c : Channel (IntegrityKey γ)} (s : Side) :
      Step c (c.put s { c.ends s with integrity := (c.ends s).integrity.sent.2 })
  | verify {c : Channel (IntegrityKey γ)} (s : Side) {frame : WireFrame} {crypto : γ}
      (hg : Genuine c.tags frame crypto) : Step c (c.put s ((c.ends s).verify frame crypto))
  | close {c : Channel (IntegrityKey γ)} (s : Side) :
      Step c (c.put s { c.ends s with integrity := (c.ends s).integrity.close })

end Channel

structure Guarded.Sound {K : Type} (own peer : DirectionKeys K) (g : Guarded K) : Prop where
  send : ∀ d, g.integrity.send = some d → d = own
  receive : ∀ d, g.integrity.receive = some d → d = peer
  together : g.integrity.receive = none → g.integrity.send = none
  pending : g.integrity.send.isSome →
    g.sealed.length = g.integrity.sendSequence.toNat + g.integrity.pendingSend.toNat
  bound : g.sealed.length < 2 ^ 64
  nonces : g.nonces = (List.range g.sealed.length).map fun n => nonce own.noncePrefix (.ofNat n)
  counted : g.verified.length = g.integrity.receiveSequence.toNat
  failed : g.failed = true → g.integrity.send = none ∧ g.integrity.receive = none

namespace Guarded.Sound

variable {γ : Type} [Cryptography γ] {own peer : DirectionKeys (IntegrityKey γ)}
  {g : Guarded (IntegrityKey γ)}

theorem close (hg : g.Sound own peer) : Sound own peer { g with integrity := g.integrity.close } :=
  ⟨by simp [Integrity.close], by simp [Integrity.close], by simp [Integrity.close],
    by simp [Integrity.close], hg.bound, hg.nonces, hg.counted, by simp [Integrity.close]⟩

theorem sent (hg : g.Sound own peer) :
    Sound own peer { g with integrity := g.integrity.sent.2 } := by
  rcases g.integrity.sent_cases with h | h | h | ⟨hs, hp, hb, h⟩ <;> rw [h]
  · exact hg
  · exact hg
  · exact hg.close
  · refine ⟨hg.send, hg.receive, hg.together, fun _ => ?_, hg.bound, hg.nonces, hg.counted,
      hg.failed⟩
    have hl := hg.pending hs
    simp only [hp, Bool.toNat_true] at hl
    simp only [hl, Bool.toNat_false, UInt64.toNat_succ hb]

theorem seal_ (hg : g.Sound own peer) (frame : WireFrame) (crypto : γ) :
    (g.seal_ frame crypto).1.Sound own peer ∧
      (g.seal_ frame crypto).1.verified = g.verified ∧
      ((g.seal_ frame crypto).2 = [] ∧ (g.seal_ frame crypto).1.sealed = g.sealed ∨
        ∃ out : WireFrame, ∃ tag, (g.seal_ frame crypto).1.sealed = g.sealed ++ [out.content] ∧
          (g.seal_ frame crypto).2 =
            [⟨own.key, nonce own.noncePrefix (.ofNat g.sealed.length), out.authenticatedData,
              tag⟩]) := by
  have hs := g.integrity.seal_sealed frame crypto
  simp only [Guarded.seal_]
  generalize g.integrity.seal_ frame crypto = result at hs
  cases hs with
  | refused => exact ⟨hg, rfl, .inl ⟨rfl, rfl⟩⟩
  | failed => exact ⟨hg.close, rfl, .inl ⟨rfl, rfl⟩⟩
  | @ok direction tag held idle bound tagged =>
    obtain rfl := hg.send direction held
    have hl : g.sealed.length = g.integrity.sendSequence.toNat := by
      simpa [idle] using hg.pending (by simp [held])
    have hn : UInt64.ofNat g.sealed.length = g.integrity.sendSequence := by simp [hl]
    simp only [held]
    refine ⟨⟨by simp, hg.receive, fun h => ?_, fun _ => ?_, ?_, ?_, hg.counted, fun h => ?_⟩,
      trivial, .inr ⟨{ frame with tag := some tag }, tag, rfl, ?_⟩⟩
    · simp [hg.together h] at held
    · simp [hl]
    · simp only [List.length_append, List.length_singleton, hl]
      exact bound
    · simp [List.range_succ, hg.nonces, hl]
    · simp [(hg.failed h).1] at held
    · simp [hn]

theorem verify (hg : g.Sound own peer) (frame : WireFrame) (crypto : γ) :
    (g.verify frame crypto).Sound own peer ∧ (g.verify frame crypto).sealed = g.sealed ∧
      ((g.verify frame crypto).verified = g.verified ∨
        (g.verify frame crypto).verified = g.verified ++ [frame.content] ∧
          g.verified.length < 2 ^ 64 ∧
          ∃ tag, frame.tag = some tag ∧ Cryptography.verifyTag crypto peer.key
            (nonce peer.noncePrefix (.ofNat g.verified.length)) frame.authenticatedData tag =
              .ok ()) := by
  have hv := g.integrity.verify_verified frame crypto
  simp only [Guarded.verify]
  generalize g.integrity.verify frame crypto = result at hv
  cases hv with
  | closed gone =>
    exact ⟨⟨hg.send, hg.receive, hg.together, hg.pending, hg.bound, hg.nonces, hg.counted,
      fun _ => ⟨hg.together gone, gone⟩⟩, rfl, .inl rfl⟩
  | failed =>
    have hc := hg.close
    exact ⟨⟨hc.send, hc.receive, hc.together, hc.pending, hc.bound, hc.nonces, hc.counted,
      fun _ => ⟨rfl, rfl⟩⟩, rfl, .inl rfl⟩
  | @ok direction tag held tagged bound accepted =>
    obtain rfl := hg.receive direction held
    have hn : UInt64.ofNat g.verified.length = g.integrity.receiveSequence := by
      simp [hg.counted]
    refine ⟨⟨hg.send, hg.receive, hg.together, hg.pending, hg.bound, hg.nonces, ?_, hg.failed⟩, rfl,
      .inr ⟨rfl, ?_, tag, tagged, hn ▸ accepted⟩⟩
    · simp [hg.counted, UInt64.toNat_succ bound]
    · rw [hg.counted]
      exact g.integrity.receiveSequence.toNat_lt

end Guarded.Sound

namespace Channel

variable {K : Type}

def Recorded (own : DirectionKeys K) (sealed : List (FrameHeader × List UInt8))
    (e : TagRecord K) : Prop :=
  ∃ n, ∃ frame : WireFrame, sealed[n]? = some frame.content ∧
    e.nonce = nonce own.noncePrefix (.ofNat n) ∧ e.data = frame.authenticatedData

theorem Recorded.mono {own : DirectionKeys K} {sealed sealed' : List (FrameHeader × List UInt8)}
    {e : TagRecord K} (h : Recorded own sealed e) (hp : sealed <+: sealed') :
    Recorded own sealed' e := by
  obtain ⟨n, frame, hn, h⟩ := h
  obtain ⟨more, rfl⟩ := hp
  exact ⟨n, frame, by rw [List.getElem?_append_left (List.getElem?_eq_some_iff.1 hn).1, hn], h⟩

structure Sound (k : Side → DirectionKeys K) (c : Channel K) : Prop where
  ends : ∀ s, (c.ends s).Sound (k s) (k s.other)
  tags : ∀ s, ∀ e ∈ c.tags, e.key = (k s).key → Recorded (k s) (c.ends s).sealed e
  delivered : ∀ s, (c.ends s).verified <+: (c.ends s.other).sealed

variable {k : Side → DirectionKeys K} {c : Channel K}

theorem Sound.put (hc : c.Sound k) (hk : ∀ s, (k s).key ≠ (k s.other).key) {s : Side}
    {g : Guarded K} (hg : g.Sound (k s) (k s.other)) (hs : (c.ends s).sealed <+: g.sealed)
    {new : List (TagRecord K)} (hnew : ∀ e ∈ new, e.key = (k s).key ∧ Recorded (k s) g.sealed e)
    (hd : g.verified <+: (c.ends s.other).sealed) : Sound k (c.put s g new) := by
  have hself : (c.put s g new).ends s = g := Function.update_self ..
  have hother : (c.put s g new).ends s.other = c.ends s.other :=
    Function.update_of_ne s.other_ne ..
  refine ⟨fun t => ?_, fun t e he hkey => ?_, fun t => ?_⟩
  · rcases s.eq_or_other t with rfl | rfl
    · rw [hself]
      exact hg
    · rw [hother]
      exact hc.ends s.other
  · rcases s.eq_or_other t with rfl | rfl
    · rw [hself]
      rcases List.mem_append.1 he with he | he
      · exact (hc.tags t e he hkey).mono hs
      · exact (hnew e he).2
    · rw [hother]
      rcases List.mem_append.1 he with he | he
      · exact hc.tags s.other e he hkey
      · exact absurd ((hnew e he).1.symm.trans hkey) (hk s)
  · rcases s.eq_or_other t with rfl | rfl
    · rw [hself, hother]
      exact hd
    · rw [hother, Side.other_other, hself]
      exact (Side.other_other s ▸ hc.delivered s.other).trans hs

variable {γ : Type} [Cryptography γ] {k : Side → DirectionKeys (IntegrityKey γ)}
  {c c' : Channel (IntegrityKey γ)}

theorem Recorded.next {own : DirectionKeys K} {sealed verified : List (FrameHeader × List UInt8)}
    {e : TagRecord K} {frame : WireFrame} (h : Recorded own sealed e)
    (hv : verified <+: sealed) (hl : sealed.length < 2 ^ 64)
    (hb : verified.length < 2 ^ 64) (hd : e.data = frame.authenticatedData)
    (hn : e.nonce = nonce own.noncePrefix (.ofNat verified.length)) :
    verified ++ [frame.content] <+: sealed := by
  obtain ⟨n, out, ho, hn', hd'⟩ := h
  have hlt := (List.getElem?_eq_some_iff.1 ho).1
  obtain rfl : n = verified.length := by
    have he := congrArg UInt64.toNat (nonce_inj (hn'.symm.trans hn)).2
    rwa [UInt64.toNat_ofNat_of_lt' (hlt.trans hl), UInt64.toNat_ofNat_of_lt' hb] at he
  obtain ⟨hh, hp⟩ := WireFrame.authenticatedData_inj (hd.symm.trans hd')
  have hc : frame.content = out.content := by simp only [WireFrame.content, hh, hp]
  obtain ⟨rest, rfl⟩ := hv
  cases rest with
  | nil => simp at hlt
  | cons x rest =>
    obtain rfl : x = out.content := by simpa using ho
    exact ⟨rest, by simp [hc]⟩

theorem Sound.step (hk : ∀ s, (k s).key ≠ (k s.other).key) (hc : c.Sound k)
    (hs : Step (γ := γ) c c') : c'.Sound k := by
  cases hs with
  | seal_ s frame crypto =>
    obtain ⟨hg, hv, ⟨hnew, hsame⟩ | ⟨out, tag, hsealed, hnew⟩⟩ := (hc.ends s).seal_ frame crypto
    · exact hc.put hk hg (hsame ▸ List.prefix_rfl) (by simp [hnew]) (hv ▸ hc.delivered s)
    · refine hc.put hk hg (hsealed ▸ List.prefix_append _ _) (fun e he => ?_) (hv ▸ hc.delivered s)
      obtain rfl := List.mem_singleton.1 (hnew ▸ he)
      exact ⟨rfl, _, out, by simp [hsealed], rfl, rfl⟩
  | sent s =>
    exact hc.put hk (hc.ends s).sent List.prefix_rfl (by simp) (hc.delivered s)
  | @verify s frame crypto hg =>
    obtain ⟨hsound, hsame, hv | ⟨hv, hb, tag, ht, ha⟩⟩ := (hc.ends s).verify frame crypto
    · exact hc.put hk hsound (hsame ▸ List.prefix_rfl) (by simp) (hv ▸ hc.delivered s)
    · have hr := hc.tags s.other _ (hg _ _ _ _ ht ha) rfl
      refine hc.put hk hsound (hsame ▸ List.prefix_rfl) (by simp) (hv ▸ ?_)
      exact hr.next (hc.delivered s) (hc.ends s.other).bound hb rfl rfl
  | close s =>
    exact hc.put hk (hc.ends s).close List.prefix_rfl (by simp) (hc.delivered s)

theorem Sound.start (k : Side → DirectionKeys (IntegrityKey γ)) : (Channel.start k).Sound k :=
  ⟨fun s => ⟨by simp [Channel.start, Integrity.new, eq_comm],
    by simp [Channel.start, Integrity.new, eq_comm], by simp [Channel.start, Integrity.new],
    by simp [Channel.start, Integrity.new], by simp [Channel.start], by simp [Channel.start],
    by simp [Channel.start, Integrity.new], by simp [Channel.start]⟩,
    by simp [Channel.start], by simp [Channel.start]⟩

theorem Sound.reached (hk : ∀ s, (k s).key ≠ (k s.other).key)
    (hr : ReflTransGen (Step (γ := γ)) (Channel.start k) c) : c.Sound k := by
  induction hr with
  | refl => exact .start k
  | tail _ hs ih => exact ih.step hk hs

theorem Sound.silent (hc : c.Sound k) {s : Side} (hf : (c.ends s).failed = true)
    (frame : WireFrame) (crypto : γ) :
    ((c.ends s).integrity.seal_ frame crypto).1 = .error .closed ∧
      ((c.ends s).integrity.verify frame crypto).1 = .error .closed := by
  obtain ⟨hsend, hreceive⟩ := (hc.ends s).failed hf
  simp only [Integrity.seal_, Integrity.verify, hsend, hreceive, and_self]

end Channel

def MockCrypto.recalling (tags : List (TagRecord (List UInt8))) : MockCrypto where
  entropy := .replicate 32 0
  acceptsTag key nonce data tag := decide (⟨key, nonce, data, tag⟩ ∈ tags)

theorem MockCrypto.recalling_genuine (tags : List (TagRecord (List UInt8))) (frame : WireFrame) :
    Channel.Genuine tags frame (MockCrypto.recalling tags) := by
  intro key nonce data tag _ hv
  have ha := MockCrypto.verdict_ok.1 hv
  simpa [recalling] using ha

def Channel.mockKeys : Side → DirectionKeys (List UInt8)
  | .left => ⟨[1], .replicate 16 0⟩
  | .right => ⟨[2], .replicate 16 0⟩

def Channel.mockRun (frame out : WireFrame) : Channel (List UInt8) :=
  let c := Channel.start Channel.mockKeys
  let sealed := (c.ends .left).seal_ (γ := MockCrypto) frame (.recalling [])
  let c := c.put .left sealed.1 sealed.2
  let c := c.put .right ((c.ends .right).verify (γ := MockCrypto) out (.recalling c.tags))
  c.put .right ((c.ends .right).verify (γ := MockCrypto) out (.recalling c.tags))

theorem Channel.mockRun_reach (frame out : WireFrame) :
    ReflTransGen (Channel.Step (γ := MockCrypto)) (.start Channel.mockKeys)
      (Channel.mockRun frame out) :=
  .tail (.tail (.single (.seal_ .left frame (.recalling [])))
    (.verify .right (MockCrypto.recalling_genuine _ out)))
    (.verify .right (MockCrypto.recalling_genuine _ out))

end TalkSphere
