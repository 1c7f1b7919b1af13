import TalkSphere.FramingReader

/-! What a poll of the frame writer does on any socket, in terms of the bytes the
socket accepted: they are the next ones of the frame, and the lease goes with the last. -/

namespace TalkSphere

inductive Put {σ : Type} [Socket σ] : σ → List UInt8 → σ → Prop
  | done (s : σ) : Put s [] s
  | pending {s s' : σ} {bytes : List UInt8} (h : Socket.pollWrite s bytes = (.pending, s')) :
      Put s [] s'
  | interrupted {s s₁ s' : σ} {bytes output : List UInt8}
      (h : Socket.pollWrite s bytes = (.ready (.error .interrupted), s₁))
      (rest : Put s₁ output s') : Put s output s'
  | wrote {s s₁ s' : σ} {bytes output : List UInt8} {count : Nat}
      (h : Socket.pollWrite s bytes = (.ready (.ok count), s₁)) (fits : count ≤ bytes.length)
      (rest : Put s₁ output s') : Put s (bytes.take count ++ output) s'

/-- A write that disables the writer: an error, no progress, or more than was offered. -/
def Broken {σ : Type} [Socket σ] (offer : List UInt8) (s s' : σ) : Prop :=
  (∃ kind, Socket.pollWrite s offer = (.ready (.error kind), s')) ∨
    ∃ count, (count = 0 ∨ offer.length < count) ∧
      Socket.pollWrite s offer = (.ready (.ok count), s')

namespace FrameWriter

/-- A frame is admitted exactly when the writer is live and idle and the frame has the
shape of its mode. -/
theorem start_cases (w : FrameWriter) (f : WireFrame) (phase : FrameProtection) :
    (∃ e, w.start f phase = (.error e, w)) ∨
      w.failed = false ∧ w.bytes = [] ∧ f.InMode phase ∧ w.start f phase =
        (.ok (), { w with reservation := f.reservation, bytes := serialize f, offset := 0 }) := by
  by_cases hf : w.failed = true
  · exact .inl ⟨.closed, by rw [start, if_pos hf]⟩
  by_cases hb : w.bytes ≠ []
  · exact .inl ⟨.busy, by rw [start, if_neg hf, if_pos hb]⟩
  by_cases ht : f.tag.isSome ≠ (phase == .tagged)
  · exact .inl ⟨.shape, by rw [start, if_neg hf, if_neg hb, if_pos ht]⟩
  refine .inr ⟨by simpa using hf, not_not.mp hb, not_not.mp ht, ?_⟩
  simp only [start, if_neg hf, if_neg hb, if_neg ht, f.header.frameLen_ok]

theorem serialize_ne_nil (f : WireFrame) : serialize f ≠ [] := by
  simp [serialize, FrameHeader.encode]

inductive Polled {σ : Type} [Socket σ] (w : FrameWriter) (s : σ) :
    Outcome × FrameWriter × σ → Prop
  | pending {output rest : List UInt8} {s' : σ} (put : Put s output s')
      (bytes : w.bytes.drop w.offset = output ++ rest) :
      Polled w s (.pending, { w with offset := w.offset + output.length }, s')
  | done {s' : σ} (put : Put s (w.bytes.drop w.offset) s') :
      Polled w s (.ready (.ok ()), { w with reservation := none, bytes := [], offset := 0 }, s')
  | failed {output rest : List UInt8} {offset : Nat} {e : FramingError} {s₁ s' : σ}
      (put : Put s output s₁) (bytes : w.bytes.drop w.offset = output ++ rest)
      (broken : Broken rest s₁ s') :
      Polled w s (.ready (.error e),
        { w with reservation := none, failed := true, bytes := [], offset }, s')

variable {σ : Type} [Socket σ] {w : FrameWriter} {s s₁ : σ}
  {result : Outcome × FrameWriter × σ}

theorem Polled.after_interrupted {bytes : List UInt8}
    (h : Socket.pollWrite s bytes = (.ready (.error .interrupted), s₁))
    (hp : Polled w s₁ result) : Polled w s result := by
  cases hp with
  | pending put hb => exact .pending (.interrupted h put) hb
  | done put => exact .done (.interrupted h put)
  | failed put hb broken => exact .failed (.interrupted h put) hb broken

theorem Polled.after_wrote {count : Nat}
    (h : Socket.pollWrite s (w.bytes.drop w.offset) = (.ready (.ok count), s₁))
    (hfit : count ≤ (w.bytes.drop w.offset).length)
    (hp : Polled { w with offset := w.offset + count } s₁ result) : Polled w s result := by
  have hlen : ((w.bytes.drop w.offset).take count).length = count := List.length_take_of_le hfit
  have hsplit : ∀ {output rest : List UInt8}, w.bytes.drop (w.offset + count) = output ++ rest →
      w.bytes.drop w.offset = (w.bytes.drop w.offset).take count ++ output ++ rest := by
    intro output rest hb
    rw [List.append_assoc, ← hb, ← List.drop_drop, List.take_append_drop]
  cases hp with
  | @pending output rest s' put hb =>
    have hq := Polled.pending (.wrote h hfit put) (hsplit hb)
    rwa [List.length_append, hlen, ← Nat.add_assoc] at hq
  | done put =>
    have hq := Put.wrote h hfit put
    simp only [← List.drop_drop, List.take_append_drop] at hq
    exact .done hq
  | failed put hb broken => exact .failed (.wrote h hfit put) (hsplit hb) broken

theorem flushLoop_polled (steps : Nat) (w : FrameWriter) (s : σ)
    (ho : w.offset ≤ w.bytes.length) : Polled w s (flushLoop steps w s) := by
  induction steps generalizing w s with
  | zero => exact .pending (.done s) (List.nil_append _).symm
  | succ steps ih =>
    rw [flushLoop]
    by_cases he : w.offset = w.bytes.length
    · rw [if_pos he]
      refine .done ?_
      rw [he, List.drop_length]
      exact .done s
    rw [if_neg he]
    cases hw : Socket.pollWrite s (w.bytes.drop w.offset) with
    | mk out s₁ =>
      have hfail : ∀ kind, Broken (w.bytes.drop w.offset) s s₁ →
          Polled w s ((w.fail kind).1, (w.fail kind).2, s₁) :=
        fun kind hb => .failed (.done s) (List.nil_append _).symm hb
      cases out with
      | pending => exact .pending (.pending hw) (List.nil_append _).symm
      | ready result =>
        cases result with
        | error kind =>
          have hb : Broken (w.bytes.drop w.offset) s s₁ := .inl ⟨kind, hw⟩
          cases kind with
          | interrupted => exact .after_interrupted hw (ih w s₁ ho)
          | _ => exact hfail _ hb
        | ok count =>
          simp only
          by_cases hz : count = 0
          · rw [if_pos hz]
            exact hfail _ (.inr ⟨count, .inl hz, hw⟩)
          rw [if_neg hz]
          by_cases hfit : count ≤ w.bytes.length - w.offset
          · rw [if_pos hfit]
            refine .after_wrote hw (by rwa [List.length_drop]) (ih _ s₁ ?_)
            simp only
            omega
          · rw [if_neg hfit]
            exact hfail _ (.inr ⟨count, .inr (by rw [List.length_drop]; omega), hw⟩)

theorem pollFlush_polled (hf : w.failed = false) (ho : w.offset ≤ w.bytes.length) :
    Polled w s (w.pollFlush s) := by
  simp only [pollFlush, hf, Bool.false_eq_true, if_false]
  exact flushLoop_polled 64 w s ho

end FrameWriter

end TalkSphere
