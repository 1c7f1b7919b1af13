import TalkSphere.Fairness
import TalkSphere.FramingReader

/-! Sockets driven by a schedule. At each call the schedule says whether the socket
is pending, interrupted, or moves up to a number of bytes. -/

namespace TalkSphere

open Fairness

inductive Act
  | pending
  | interrupted
  /-- At most one byte more than `extra`. -/
  | move (extra : Nat)
  deriving DecidableEq, Repr

def Act.Moves : Act → Prop
  | .move _ => True
  | _ => False

def FairSchedule (acts : Nat → Act) : Prop := Often fun t => (acts t).Moves

/-- A byte stream to read: what was handed over and what was not. -/
structure Source where
  acts : Nat → Act
  clock : Nat := 0
  given : List UInt8 := []
  rest : List UInt8

namespace Source

def give (s : Source) (count : Nat) : Source :=
  { s with clock := s.clock + 1, given := s.given ++ s.rest.take count, rest := s.rest.drop count }

instance : Socket Source where
  pollRead s room :=
    match s.acts s.clock with
    | .pending => (.pending, s.give 0)
    | .interrupted => (.ready (.error .interrupted), s.give 0)
    | .move extra =>
      (.ready (.ok (s.rest.take (min (extra + 1) room))), s.give (min (extra + 1) room))
  pollWrite s _ := (.ready (.error (.other 0)), s)

end Source

structure Sink where
  acts : Nat → Act
  clock : Nat := 0
  written : List UInt8 := []

namespace Sink

def accept (s : Sink) (bytes : List UInt8) : Sink :=
  { s with clock := s.clock + 1, written := s.written ++ bytes }

instance : Socket Sink where
  pollRead s _ := (.ready (.error (.other 0)), s)
  pollWrite s bytes :=
    match s.acts s.clock with
    | .pending => (.pending, s.accept [])
    | .interrupted => (.ready (.error .interrupted), s.accept [])
    | .move extra =>
      let count := min (extra + 1) bytes.length
      (.ready (.ok count), s.accept (bytes.take count))

end Sink

def wireBytes (frames : List WireFrame) : List UInt8 := frames.flatMap FrameWriter.serialize

@[simp] theorem wireBytes_nil : wireBytes [] = [] := rfl

@[simp] theorem wireBytes_cons (f : WireFrame) (fs : List WireFrame) :
    wireBytes (f :: fs) = FrameWriter.serialize f ++ wireBytes fs := rfl

structure Writing where
  writer : FrameWriter := {}
  sink : Sink
  frames : List WireFrame
  errors : List FramingError := []

namespace Writing

def begin (phase : FrameProtection) (x : Writing) : Writing :=
  if x.writer.isBusy then x
  else match x.frames with
    | [] => x
    | f :: fs =>
      match x.writer.start f phase with
      | (.ok (), writer) => { x with writer, frames := fs }
      | (.error e, writer) => { x with writer, errors := x.errors ++ [e] }

def flush (x : Writing) : Writing :=
  match x.writer.pollFlush x.sink with
  | (.ready (.error e), writer, sink) => { x with writer, sink, errors := x.errors ++ [e] }
  | (_, writer, sink) => { x with writer, sink }

def turn (phase : FrameProtection) (x : Writing) : Writing := (x.begin phase).flush

def start (acts : Nat → Act) (frames : List WireFrame) : Writing where
  sink := { acts }
  frames

def Finished (x : Writing) : Prop := x.frames = [] ∧ x.writer.isBusy = false

def held (x : Writing) : List UInt8 := x.writer.bytes.drop x.writer.offset

/-- No error so far, and every byte is written, held, or of a frame to come. -/
structure Sound (phase : FrameProtection) (total : List UInt8) (x : Writing) : Prop where
  mode : ∀ f ∈ x.frames, f.InMode phase
  failed : x.writer.failed = false
  errors : x.errors = []
  offset : x.writer.offset ≤ x.writer.bytes.length
  bytes : x.sink.written ++ x.held ++ wireBytes x.frames = total

end Writing

/-- What some steps of a poll of the writer do on a scheduled sink: bytes move from
what it holds to the sink, in order. -/
structure FrameWriter.Flushed (steps : Nat) (w : FrameWriter) (s : Sink)
    (result : Poll (Except FramingError Unit) × FrameWriter × Sink) : Prop where
  acts : result.2.2.acts = s.acts
  failed : result.2.1.failed = w.failed
  offset : result.2.1.offset ≤ result.2.1.bytes.length
  bytes : result.2.2.written ++ result.2.1.bytes.drop result.2.1.offset =
    s.written ++ w.bytes.drop w.offset
  outcome : result.1 = .pending ∧ result.2.1.bytes = w.bytes ∧
      s.clock + min steps 1 ≤ result.2.2.clock ∨
    result.1 = .ready (.ok ()) ∧ result.2.1.bytes = []
  clock : s.clock ≤ result.2.2.clock
  written : s.written <+: result.2.2.written
  moved : ∀ t, s.clock ≤ t → t < result.2.2.clock → (s.acts t).Moves →
    s.written.length < result.2.2.written.length

theorem FrameWriter.Flushed.after {steps count : Nat} {w : FrameWriter} {s : Sink}
    {result : Poll (Except FramingError Unit) × FrameWriter × Sink}
    (hc : w.offset + count ≤ w.bytes.length) (hm : (s.acts s.clock).Moves → 0 < count)
    (h : Flushed steps { w with offset := w.offset + count }
      (s.accept ((w.bytes.drop w.offset).take count)) result) : Flushed (steps + 1) w s result := by
  obtain ⟨acts, failed, offset, bytes, outcome, clock, written, moved⟩ := h
  have hlen := written.length_le
  simp only [Sink.accept, List.length_append, List.length_take, List.length_drop] at *
  refine ⟨acts, failed, offset, ?_, ?_, by omega, (List.prefix_append _ _).trans written,
    fun t h₁ h₂ ht => ?_⟩
  · rw [bytes, List.append_assoc, ← List.drop_drop, List.take_append_drop]
  · rcases outcome with ⟨hp, hb, hs⟩ | hr
    · exact .inl ⟨hp, hb, by omega⟩
    · exact .inr hr
  · by_cases he : t = s.clock
    · subst he
      have := hm ht
      omega
    · have := moved t (by omega) h₂ ht
      omega

theorem FrameWriter.flushLoop_flushed (steps : Nat) (w : FrameWriter) (s : Sink)
    (ho : w.offset ≤ w.bytes.length) : Flushed steps w s (flushLoop steps w s) := by
  induction steps generalizing w s with
  | zero =>
    exact ⟨rfl, rfl, ho, rfl, .inl ⟨rfl, rfl, by simp [flushLoop]⟩, Nat.le_refl _,
      List.prefix_rfl, fun t h₁ h₂ => by simp only [flushLoop] at h₂; omega⟩
  | succ steps ih =>
    by_cases he : w.offset = w.bytes.length
    · simp only [flushLoop, if_pos he]
      exact ⟨rfl, rfl, Nat.le_refl _, by simp [he], .inr ⟨rfl, rfl⟩, Nat.le_refl _,
        List.prefix_rfl, fun t h₁ h₂ => by simp only at h₂; omega⟩
    · simp only [flushLoop, if_neg he, Socket.pollWrite]
      cases ha : s.acts s.clock with
      | pending =>
        refine ⟨rfl, rfl, ho, by simp [Sink.accept], .inl ⟨rfl, rfl, by simp [Sink.accept]⟩,
          by simp [Sink.accept], by simp [Sink.accept], fun t h₁ h₂ hm => ?_⟩
        obtain rfl : t = s.clock := by simp only [Sink.accept] at h₂; omega
        simp [ha, Act.Moves] at hm
      | interrupted => exact .after (by omega : w.offset + 0 ≤ w.bytes.length) (by simp [ha, Act.Moves]) (ih w _ ho)
      | move extra =>
        have hpos : min (extra + 1) (w.bytes.length - w.offset) ≠ 0 := by omega
        simp only [List.length_drop, if_neg hpos, if_pos (Nat.min_le_right _ _)]
        exact .after (by omega) (fun _ => by omega) (ih _ _ (by simp only; omega))

theorem FrameWriter.start_ok {w : FrameWriter} {f : WireFrame} {phase : FrameProtection}
    (hw : w.failed = false) (hb : w.bytes = []) (hf : f.InMode phase) :
    w.start f phase =
      (.ok (), { w with reservation := f.reservation, bytes := serialize f, offset := 0 }) := by
  have ht : ¬ f.tag.isSome ≠ (phase == .tagged) := not_not.2 hf
  simp only [start, hw, hb, Bool.false_eq_true, if_false, ne_eq, not_true_eq_false, if_neg ht,
    f.header.frameLen_ok]

namespace Writing

variable {phase : FrameProtection} {total : List UInt8} {x : Writing}

def work (x : Writing) : Nat :=
  x.held.length + (wireBytes x.frames).length + x.frames.length + x.writer.isBusy.toNat

theorem Sound.begin (hx : x.Sound phase total) :
    (x.begin phase).Sound phase total ∧ (x.begin phase).sink = x.sink ∧
      (x.begin phase).work = x.work ∧ (¬ x.Finished → (x.begin phase).writer.isBusy = true) := by
  simp only [Writing.begin]
  cases hb : x.writer.isBusy with
  | true => exact ⟨hx, rfl, rfl, fun _ => hb⟩
  | false =>
    have he : x.writer.bytes = [] := by simpa [FrameWriter.isBusy] using hb
    simp only [Bool.false_eq_true, if_false]
    cases hf : x.frames with
    | nil => exact ⟨hx, rfl, rfl, fun h => absurd ⟨hf, hb⟩ h⟩
    | cons f fs =>
      have hm : f.InMode phase := hx.mode f (by simp [hf])
      simp only [FrameWriter.start_ok hx.failed he hm]
      have hlen := FrameWriter.serialize_length hm
      have hbusy : (FrameWriter.serialize f).isEmpty = false := by
        cases hs : FrameWriter.serialize f with
        | nil => simp [hs, headerBytes] at hlen; omega
        | cons => rfl
      refine ⟨⟨fun g hg => hx.mode g (by simp [hf, hg]), hx.failed, hx.errors, Nat.zero_le _, ?_⟩,
        trivial, ?_, fun _ => by simp [FrameWriter.isBusy, hbusy]⟩
      · simpa [held, he, hf] using hx.bytes
      · simp [work, held, he, hf, FrameWriter.isBusy, hbusy]
        omega

theorem Sound.flush (hx : x.Sound phase total) :
    x.flush.Sound phase total ∧ x.flush.sink.acts = x.sink.acts ∧
      (x.writer.isBusy = true →
        Advances (fun t => (x.sink.acts t).Moves) (·.sink.clock) work x x.flush) := by
  have hf := FrameWriter.flushLoop_flushed 64 x.writer x.sink hx.offset
  have hp : x.writer.pollFlush x.sink = FrameWriter.flushLoop 64 x.writer x.sink := by
    simp only [FrameWriter.pollFlush, hx.failed, Bool.false_eq_true, if_false]
  simp only [Writing.flush, hp]
  generalize FrameWriter.flushLoop 64 x.writer x.sink = result at hf
  obtain ⟨out, w, s⟩ := result
  obtain ⟨acts, failed, offset, bytes, outcome, clock, written, moved⟩ := hf
  have hlen := congrArg List.length bytes
  simp only [List.length_append] at acts failed offset bytes outcome clock moved hlen
  -- Whatever the outcome, the polled writer and sink account for the same bytes.
  have hs : Sound phase total { x with writer := w, sink := s } := by
    refine ⟨hx.mode, failed.trans hx.failed, hx.errors, offset, ?_⟩
    rw [held, bytes]
    exact hx.bytes
  have ha : (out = .pending ∧ w.bytes = x.writer.bytes ∧ x.sink.clock < s.clock ∨
      out = .ready (.ok ()) ∧ w.bytes = []) → x.writer.isBusy = true →
      Advances (fun t => (x.sink.acts t).Moves) (·.sink.clock) work x
        { x with writer := w, sink := s } := by
    intro hout hbusy
    have hwr : x.sink.written.length ≤ s.written.length := written.length_le
    rcases hout with ⟨-, hb, hc⟩ | ⟨-, hb⟩
    · refine ⟨?_, .inr hc, fun t h₁ h₂ hm => ?_⟩ <;>
        simp only [work, held, FrameWriter.isBusy, hb] at *
      · omega
      · have := moved t h₁ h₂ hm
        omega
    · have hw : work { x with writer := w, sink := s } < work x := by
        simp only [work, held, hbusy, Bool.toNat_true]
        simp only [FrameWriter.isBusy, hb, List.isEmpty_nil, Bool.not_true, Bool.toNat_false]
        rw [hb] at hlen
        omega
      exact ⟨hw.le, .inl hw, fun _ _ _ _ => hw⟩
  rcases outcome with ⟨rfl, hb, hc⟩ | ⟨rfl, hb⟩
  · exact ⟨hs, acts, ha (.inl ⟨rfl, hb, by omega⟩)⟩
  · exact ⟨hs, acts, ha (.inr ⟨rfl, hb⟩)⟩

theorem Sound.turn (hx : x.Sound phase total) :
    (x.turn phase).Sound phase total ∧ (x.turn phase).sink.acts = x.sink.acts ∧
      (¬ x.Finished →
        Advances (fun t => (x.sink.acts t).Moves) (·.sink.clock) work x (x.turn phase)) := by
  obtain ⟨hb, hsink, hwork, hbusy⟩ := hx.begin
  obtain ⟨hf, hacts, ha⟩ := hb.flush
  refine ⟨hf, hacts.trans (congrArg _ hsink), fun hn => ?_⟩
  obtain ⟨h₁, h₂, h₃⟩ := ha (hbusy hn)
  rw [hsink] at h₂ h₃
  rw [hwork] at h₁ h₂ h₃
  exact ⟨h₁, h₂, h₃⟩

theorem Sound.start (acts : Nat → Act) {frames : List WireFrame}
    (hf : ∀ f ∈ frames, f.InMode phase) : (start acts frames).Sound phase (wireBytes frames) :=
  ⟨hf, rfl, rfl, Nat.le_refl _, by simp [Writing.start, held]⟩

theorem written (phase : FrameProtection) (acts : Nat → Act) {frames : List WireFrame}
    (hf : ∀ f ∈ frames, f.InMode phase) :
    (∀ m, ((turn phase)^[m] (start acts frames)).errors = [] ∧
      ((turn phase)^[m] (start acts frames)).sink.written <+: wireBytes frames) ∧
    (FairSchedule acts → ∃ m, ((turn phase)^[m] (start acts frames)).Finished ∧
      ((turn phase)^[m] (start acts frames)).sink.written = wireBytes frames) := by
  have hrun : ∀ m, ((turn phase)^[m] (start acts frames)).Sound phase (wireBytes frames) := by
    intro m
    induction m with
    | zero => exact .start acts hf
    | succ m ih =>
      rw [Function.iterate_succ_apply']
      exact ih.turn.1
  refine ⟨fun m => ⟨(hrun m).errors, ?_⟩, fun hfair => ?_⟩
  · rw [← (hrun m).bytes, List.append_assoc]
    exact List.prefix_append _ _
  · let inv (x : Writing) : Prop := x.Sound phase (wireBytes frames) ∧ x.sink.acts = acts
    have hstep : ∀ x, inv x → ¬ x.Finished →
        inv (x.turn phase) ∧ Advances (fun t => (acts t).Moves) (·.sink.clock) work x
          (x.turn phase) := by
      rintro x ⟨hx, rfl⟩ hn
      exact ⟨⟨hx.turn.1, hx.turn.2.1⟩, hx.turn.2.2 hn⟩
    obtain ⟨m, hm⟩ := reaches hfair hstep (x := start acts frames) ⟨.start acts hf, rfl⟩
    refine ⟨m, hm, ?_⟩
    have hb := (hrun m).bytes
    have he : ((turn phase)^[m] (start acts frames)).writer.bytes = [] := by
      simpa [FrameWriter.isBusy] using hm.2
    simpa [held, he, hm.1] using hb

end Writing

end TalkSphere
