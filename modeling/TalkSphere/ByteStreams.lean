import TalkSphere.FramingRoundTrip
import TalkSphere.FramingWriter

/-! Reliable byte streams, and frames written and read on one of them when both ends
choose the protection mode of a frame by its position alone. -/

namespace TalkSphere

def Poll.input : Poll (Except ErrorKind (List UInt8)) → List UInt8
  | .ready (.ok bytes) => bytes
  | _ => []

def Poll.output (offer : List UInt8) : Poll (Except ErrorKind Nat) → List UInt8
  | .ready (.ok count) => offer.take count
  | _ => []

/-- A socket with the bytes it has handed over and the bytes it has accepted so far. -/
class ByteStream (σ : Type) extends Socket σ where
  given : σ → List UInt8
  accepted : σ → List UInt8
  read {s s' : σ} {room : Nat} {out : Poll (Except ErrorKind (List UInt8))} :
    pollRead s room = (out, s') → given s' = given s ++ out.input ∧ accepted s' = accepted s
  write {s s' : σ} {offer : List UInt8} {out : Poll (Except ErrorKind Nat)} :
    pollWrite s offer = (out, s') →
      given s' = given s ∧ accepted s' = accepted s ++ out.output offer

section

variable {σ : Type} [ByteStream σ] {s s' : σ}

open ByteStream (given accepted)

theorem Took.stream {input : List UInt8} {calls : Nat} (h : Took s input calls s') :
    given s' = given s ++ input ∧ accepted s' = accepted s := by
  induction h with
  | done => exact ⟨(List.append_nil _).symm, rfl⟩
  | pending h => exact ByteStream.read h
  | interrupted h _ ih =>
    obtain ⟨hg, ha⟩ := ByteStream.read h
    exact ⟨by simp [ih.1, hg, Poll.input], ih.2.trans ha⟩
  | read h _ _ ih =>
    obtain ⟨hg, ha⟩ := ByteStream.read h
    exact ⟨by rw [ih.1, hg, Poll.input, List.append_assoc], ih.2.trans ha⟩

theorem Ended.stream (h : Ended s s') : given s' = given s ∧ accepted s' = accepted s := by
  obtain ⟨room, -, h⟩ := h
  obtain ⟨hg, ha⟩ := ByteStream.read h
  exact ⟨hg.trans (List.append_nil _), ha⟩

theorem Put.stream {output : List UInt8} (h : Put s output s') :
    given s' = given s ∧ accepted s' = accepted s ++ output := by
  induction h with
  | done => exact ⟨rfl, (List.append_nil _).symm⟩
  | pending h => exact ByteStream.write h
  | interrupted h _ ih =>
    obtain ⟨hg, ha⟩ := ByteStream.write h
    exact ⟨ih.1.trans hg, by simp [ih.2, ha, Poll.output]⟩
  | wrote h _ _ ih =>
    obtain ⟨hg, ha⟩ := ByteStream.write h
    exact ⟨ih.1.trans hg, by rw [ih.2, ha, Poll.output, List.append_assoc]⟩

theorem Broken.stream {offer : List UInt8} (h : Broken offer s s') : given s' = given s ∧
    ∃ output rest, offer = output ++ rest ∧ accepted s' = accepted s ++ output := by
  rcases h with ⟨kind, h⟩ | ⟨count, -, h⟩ <;> obtain ⟨hg, ha⟩ := ByteStream.write h
  · exact ⟨hg, [], offer, rfl, ha⟩
  · exact ⟨hg, offer.take count, offer.drop count, (List.take_append_drop _ _).symm, ha⟩

theorem FrameReader.Polled.stream {phase : FrameProtection} {need : Nat} {r : FrameReader}
    {result : FrameReader.Outcome × FrameReader × σ} (h : Polled phase need r s result) :
    ∃ input, given result.2.2 = given s ++ input ∧ accepted result.2.2 = accepted s := by
  cases h with
  | pending took | frame took | header took => exact ⟨_, took.stream⟩
  | finished took ended | truncated took ended =>
    exact ⟨_, ended.stream.1.trans took.stream.1, ended.stream.2.trans took.stream.2⟩
  | io took _ broken =>
    rcases broken with h | ⟨bytes, -, h⟩ <;> obtain ⟨hg, ha⟩ := ByteStream.read h
    · exact ⟨_, hg.trans (by rw [took.stream.1, List.append_assoc]), ha.trans took.stream.2⟩
    · exact ⟨_, hg.trans (by rw [took.stream.1, List.append_assoc]), ha.trans took.stream.2⟩

end

/-- Frames with the protection mode of each. -/
abbrev WireLog := List (FrameProtection × WireFrame)

namespace WireLog

def frames (log : WireLog) : List WireFrame := log.map Prod.snd

def kinds (log : WireLog) : List FrameType := log.map (·.2.header.frameType)

def received (log : WireLog) : WireLog := log.map fun x => (x.1, x.2.received)

/-- A HELLO and an AUTH, or an ERROR in place of one of them, and then the session. -/
def modeAt (position : Nat) : FrameProtection := if position < 2 then .untagged else .tagged

def Placed : Nat → WireLog → Prop
  | _, [] => True
  | n, (mode, f) :: rest => (mode = modeAt n ∧ f.InMode mode) ∧ Placed (n + 1) rest

theorem Placed.concat {n : Nat} {log : WireLog} {mode : FrameProtection} {f : WireFrame}
    (h : Placed n log) (hm : mode = modeAt (n + log.length)) (hf : f.InMode mode) :
    Placed n (log ++ [(mode, f)]) := by
  induction log generalizing n with
  | nil => exact ⟨⟨hm, hf⟩, trivial⟩
  | cons x log ih =>
    refine ⟨h.1, ih h.2 ?_⟩
    rw [hm, List.length_cons, Nat.add_assoc, Nat.add_comm 1]

/-- When the bytes of one log begin the bytes of another, so do its frames, mode by mode:
the position gives the mode, and the mode and the header give the length. -/
theorem Placed.isPrefix {n : Nat} {heard wrote : WireLog} (hh : Placed n heard)
    (hw : Placed n wrote) (hr : ∀ x ∈ heard, x.2.reservation = none)
    (hb : wireBytes heard.frames <+: wireBytes wrote.frames) : heard <+: wrote.received := by
  induction heard generalizing n wrote with
  | nil => exact List.nil_prefix
  | cons x heard ih =>
    obtain ⟨mode, f⟩ := x
    obtain ⟨tail, hb⟩ := hb
    cases wrote with
    | nil => simp [frames, FrameWriter.serialize_ne_nil] at hb
    | cons y wrote =>
      obtain ⟨mode', g⟩ := y
      obtain ⟨⟨rfl, hf⟩, hh⟩ := hh
      obtain ⟨⟨rfl, hg⟩, hw⟩ := hw
      simp only [frames, List.map_cons, wireBytes_cons, List.append_assoc] at hb
      obtain ⟨hhead, hpay, htag, hrest⟩ := FrameWriter.serialize_inj hf hg hb
      have hfg : f = g.received := by
        have hres := hr _ List.mem_cons_self
        cases f
        cases g
        simp_all [WireFrame.received]
      have htail := ih hh hw (fun x hx => hr x (List.mem_cons_of_mem _ hx)) ⟨tail, hrest⟩
      rw [hfg]
      exact List.cons_prefix_cons.mpr ⟨rfl, htail⟩

end WireLog

end TalkSphere
