import TalkSphere.Framing

/-! What a poll of the frame reader does on any socket, in terms of the bytes the
socket handed over: the reader returns a frame when the bytes taken since the last one
are exactly its serialization, and asks for no byte beyond it. -/

namespace TalkSphere

def WireFrame.InMode (phase : FrameProtection) (f : WireFrame) : Prop :=
  f.tag.isSome = (phase == .tagged)

theorem FrameWriter.serialize_length {f : WireFrame} {phase : FrameProtection}
    (hf : f.InMode phase) : (FrameWriter.serialize f).length =
      headerBytes + f.header.payloadLen.toNat + phase.overhead := by
  have hl := f.payload_length
  cases phase <;> cases ht : f.tag <;>
    simp [WireFrame.InMode, ht] at hf <;>
    simp [FrameWriter.serialize, ht, FrameProtection.overhead, integrityTagBytes, Nat.add_assoc, hl]

theorem FrameWriter.serialize_inj {f g : WireFrame} {phase : FrameProtection} {a b : List UInt8}
    (hf : f.InMode phase) (hg : g.InMode phase) (h : serialize f ++ a = serialize g ++ b) :
    f.header = g.header ∧ f.payload = g.payload ∧ f.tag = g.tag ∧ a = b := by
  have hh : f.header = g.header := by
    simp only [serialize, List.append_assoc] at h
    exact FrameHeader.encode_inj (List.append_inj h (by simp)).1
  obtain ⟨hs, hab⟩ := List.append_inj h (by rw [serialize_length hf, serialize_length hg, hh])
  simp only [serialize, hh, List.append_assoc, List.append_cancel_left_eq] at hs
  obtain ⟨hp, ht⟩ := List.append_inj hs (by rw [f.payload_length, g.payload_length, hh])
  refine ⟨hh, hp, ?_, hab⟩
  cases hft : f.tag <;> cases hgt : g.tag <;>
    simp only [WireFrame.InMode, hft, hgt, Option.isSome_none, Option.isSome_some] at hf hg
  case none.none => rfl
  case none.some | some.none => exact absurd (hf.trans hg.symm) (by decide)
  case some.some => simpa [hft, hgt, Vector.toList_inj] using ht

theorem WireFrame.new_ok {header : FrameHeader} {payload : List UInt8} {tag : Option Tag}
    (h : payload.length = header.payloadLen.toNat) :
    WireFrame.new header payload tag = .ok ⟨none, header, payload, tag, h⟩ :=
  dif_pos h

/-- Bytes a socket handed over in a number of calls; none of them ended the stream. -/
inductive Took {σ : Type} [Socket σ] : σ → List UInt8 → Nat → σ → Prop
  | done (s : σ) : Took s [] 0 s
  | pending {s s' : σ} {room : Nat} (h : Socket.pollRead s room = (.pending, s')) : Took s [] 1 s'
  | interrupted {s s₁ s' : σ} {room calls : Nat} {input : List UInt8}
      (h : Socket.pollRead s room = (.ready (.error .interrupted), s₁))
      (rest : Took s₁ input calls s') : Took s input (calls + 1) s'
  | read {s s₁ s' : σ} {room calls : Nat} {bytes input : List UInt8}
      (h : Socket.pollRead s room = (.ready (.ok bytes), s₁)) (nonempty : bytes ≠ [])
      (rest : Took s₁ input calls s') : Took s (bytes ++ input) (calls + 1) s'

def Ended {σ : Type} [Socket σ] (s s' : σ) : Prop :=
  ∃ room, 0 < room ∧ Socket.pollRead s room = (.ready (.ok []), s')

namespace FrameReader

def taken (r : FrameReader) : List UInt8 := r.bytes.take r.offset

/-- A reader between frames or inside one, with what it knows of the frame. -/
structure Partial (phase : FrameProtection) (r : FrameReader) : Prop where
  live : r.failed = false ∧ r.eof = false
  offset : r.offset ≤ r.bytes.length
  shape : r.header = none ∧ (r.bytes = [] ∨ r.bytes.length = headerBytes) ∨
    ∃ h, r.header = some h ∧ headerBytes ≤ r.offset ∧
      FrameHeader.decode (r.bytes.take headerBytes) = .ok h ∧
      r.bytes.length = headerBytes + h.payloadLen.toNat + phase.overhead

theorem Partial.fresh (phase : FrameProtection) : ({} : FrameReader).Partial phase :=
  ⟨⟨rfl, rfl⟩, Nat.le_refl 0, .inl ⟨rfl, .inl rfl⟩⟩

/-- The outcomes of a poll. Pending takes at least `need` calls to the socket. -/
inductive Polled {σ : Type} [Socket σ] (phase : FrameProtection) (need : Nat) (r : FrameReader)
    (s : σ) : Outcome × FrameReader × σ → Prop
  | pending {input : List UInt8} {calls : Nat} {r' : FrameReader} {s' : σ}
      (took : Took s input calls s') (called : need ≤ calls) (part : r'.Partial phase)
      (mode : r'.phase = some phase) (bytes : r'.taken = r.taken ++ input) :
      Polled phase need r s (.pending, r', s')
  | frame {input : List UInt8} {calls : Nat} {f : WireFrame} {s' : σ}
      (took : Took s input calls s') (mode : f.InMode phase) (unreserved : f.reservation = none)
      (bytes : r.taken ++ input = FrameWriter.serialize f) :
      Polled phase need r s (.ready (.ok (some f)), {}, s')
  | finished {calls : Nat} {r' : FrameReader} {s₁ s' : σ} (took : Took s [] calls s₁)
      (ended : Ended s₁ s') (empty : r.taken = []) (eof : r'.failed = false ∧ r'.eof = true) :
      Polled phase need r s (.ready (.ok none), r', s')
  | truncated {input : List UInt8} {calls : Nat} {r' : FrameReader} {s₁ s' : σ}
      (took : Took s input calls s₁) (ended : Ended s₁ s') (some : r.taken ++ input ≠ [])
      (short : ∀ f : WireFrame, f.InMode phase → ¬ FrameWriter.serialize f <+: r.taken ++ input)
      (failed : r'.failed = true) : Polled phase need r s (.ready (.error .truncated), r', s')
  | header {input : List UInt8} {calls : Nat} {r' : FrameReader} {s' : σ} {e : HeaderError}
      (took : Took s input calls s') (full : (r.taken ++ input).length = headerBytes)
      (bad : FrameHeader.decode (r.taken ++ input) = .error e) (failed : r'.failed = true) :
      Polled phase need r s (.ready (.error (.header e)), r', s')
  | io {input : List UInt8} {calls room : Nat} {kind : ErrorKind} {r' : FrameReader} {s₁ s' : σ}
      (took : Took s input calls s₁) (hard : kind ≠ .interrupted)
      (broken : Socket.pollRead s₁ room = (.ready (.error kind), s') ∨
        ∃ bytes, room < bytes.length ∧ Socket.pollRead s₁ room = (.ready (.ok bytes), s'))
      (failed : r'.failed = true) : Polled phase need r s (.ready (.error (.io kind)), r', s')

variable {σ : Type} [Socket σ] {phase : FrameProtection} {need : Nat} {r r₁ : FrameReader}
  {s s₁ : σ} {result : Outcome × FrameReader × σ}

theorem Polled.after_interrupted {room : Nat}
    (h : Socket.pollRead s room = (.ready (.error .interrupted), s₁)) (hn : need ≤ 1)
    (hp : Polled phase 0 r s₁ result) : Polled phase need r s result := by
  cases hp with
  | pending took _ part mode bytes =>
    exact .pending (.interrupted h took) (by omega) part mode bytes
  | frame took mode unreserved bytes => exact .frame (.interrupted h took) mode unreserved bytes
  | finished took ended empty eof => exact .finished (.interrupted h took) ended empty eof
  | truncated took ended some short failed =>
    exact .truncated (.interrupted h took) ended some short failed
  | header took full bad failed => exact .header (.interrupted h took) full bad failed
  | io took hard broken failed => exact .io (.interrupted h took) hard broken failed

theorem Polled.after_read {room : Nat} {bytes : List UInt8}
    (h : Socket.pollRead s room = (.ready (.ok bytes), s₁)) (hb : bytes ≠ []) (hn : need ≤ 1)
    (ht : r₁.taken = r.taken ++ bytes) (hp : Polled phase 0 r₁ s₁ result) :
    Polled phase need r s result := by
  have happ : ∀ input, r₁.taken ++ input = r.taken ++ (bytes ++ input) := fun input => by
    rw [ht, List.append_assoc]
  cases hp with
  | pending took _ part mode bytes =>
    exact .pending (.read h hb took) (by omega) part mode (bytes.trans (happ _))
  | frame took mode unreserved bytes =>
    exact .frame (.read h hb took) mode unreserved ((happ _).symm.trans bytes)
  | finished took ended empty eof =>
    rw [ht, List.append_eq_nil_iff] at empty
    exact absurd empty.2 hb
  | truncated took ended some short failed =>
    rw [happ] at some short
    exact .truncated (.read h hb took) ended some short failed
  | header took full bad failed =>
    rw [happ] at full bad
    exact .header (.read h hb took) full bad failed
  | io took hard broken failed => exact .io (.read h hb took) hard broken failed

theorem Polled.of_taken (ht : r₁.taken = r.taken) (hp : Polled phase need r₁ s result) :
    Polled phase need r s result := by
  cases hp with
  | pending took called part mode bytes => exact .pending took called part mode (ht ▸ bytes)
  | frame took mode unreserved bytes => exact .frame took mode unreserved (ht ▸ bytes)
  | finished took ended empty eof => exact .finished took ended (ht ▸ empty) eof
  | truncated took ended some short failed =>
    exact .truncated took ended (ht ▸ some) (ht ▸ short) failed
  | header took full bad failed => exact .header took (ht ▸ full) (ht ▸ bad) failed
  | io took hard broken failed => exact .io took hard broken failed

theorem taken_fill (r : FrameReader) {input : List UInt8} (h : r.offset + input.length ≤ r.bytes.length) :
    (r.fill input).taken = r.taken ++ input ∧ (r.fill input).bytes.length = r.bytes.length := by
  have hl : (r.bytes.take r.offset ++ input).length = r.offset + input.length := by
    simp only [List.length_append, List.length_take]
    omega
  refine ⟨?_, ?_⟩
  · simp only [taken, fill, ← hl, List.take_left']
  · simp only [fill, List.length_append, List.length_take, List.length_drop]
    omega

theorem bytes_of_length {n : Nat} {bytes : List UInt8} (h : bytes.length = n) :
    (Vector.ofFn fun i : Fin n => bytes.getD i 0).toList = bytes := by
  apply List.ext_getElem
  · simp [h]
  · intro i h₁ h₂
    simp [h₂]

theorem finish_frame {h : FrameHeader} (hp : r.Partial phase) (hh : r.header = some h)
    (ho : r.offset = r.bytes.length) : ∃ f : WireFrame, f.InMode phase ∧ f.reservation = none ∧
      r.taken = FrameWriter.serialize f ∧ r.finish h phase = (.ready (.ok (some f)), {}) := by
  obtain ⟨h', hh', -, hd, hl⟩ : ∃ h, r.header = some h ∧ _ := by simpa [hh] using hp.shape
  obtain rfl : h = h' := by simpa [hh] using hh'
  have hpay : ((r.bytes.take (r.bytes.length - phase.overhead)).drop headerBytes).length =
      h.payloadLen.toNat := by
    simp only [List.length_drop, List.length_take]
    omega
  have htail : (r.bytes.drop (r.bytes.length - phase.overhead)).length = phase.overhead := by
    simp only [List.length_drop]
    omega
  have hparts : h.encode ++ (r.bytes.take (r.bytes.length - phase.overhead)).drop headerBytes ++
      r.bytes.drop (r.bytes.length - phase.overhead) = r.bytes := by
    have hk : min headerBytes (r.bytes.length - phase.overhead) = headerBytes := by omega
    rw [FrameHeader.encode_of_decode hd,
      show r.bytes.take headerBytes = (r.bytes.take (r.bytes.length - phase.overhead)).take
        headerBytes by rw [List.take_take, hk], List.take_append_drop, List.take_append_drop]
  have ht : r.taken = r.bytes := by rw [taken, ho, List.take_length]
  have hidle : ({ r with header := none, bytes := [], offset := 0, phase := none } : FrameReader) =
      {} := by rw [hp.live.1, hp.live.2]
  unfold finish
  simp only [WireFrame.new_ok hpay, hidle]
  refine ⟨⟨none, h, _, _, hpay⟩, ?_, rfl, ?_, rfl⟩
  · cases phase <;> rfl
  · rw [ht]
    refine hparts.symm.trans ?_
    simp only [FrameWriter.serialize, List.append_cancel_left_eq]
    cases phase with
    | tagged =>
      simp only [Option.map_some, Option.getD_some]
      exact (bytes_of_length htail).symm
    | untagged => exact List.eq_nil_of_length_eq_zero htail

theorem Partial.fill {input : List UInt8} (hp : r.Partial phase) (hb : r.bytes ≠ [])
    (h : input.length ≤ r.bytes.length - r.offset) : (r.fill input).Partial phase := by
  have ho := hp.offset
  have hl := (r.taken_fill (by omega : r.offset + input.length ≤ r.bytes.length)).2
  refine ⟨hp.live, ?_, ?_⟩
  · rw [hl]
    simp only [FrameReader.fill]
    omega
  · rw [hl]
    rcases hp.shape with ⟨hh, he | he⟩ | ⟨k, hh, h12, hd, he⟩
    · exact absurd he hb
    · exact .inl ⟨hh, .inr he⟩
    · refine .inr ⟨k, hh, by simp only [FrameReader.fill]; omega, ?_, he⟩
      simp only [FrameReader.fill, List.append_assoc]
      rw [List.take_append_of_le_length (by simp only [List.length_take]; omega), List.take_take,
        Nat.min_eq_left h12, hd]

theorem resize_le {bytes : List UInt8} {length : Nat} (h : bytes.length ≤ length) :
    resize bytes length = bytes ++ List.replicate (length - bytes.length) 0 := by
  rw [resize, List.take_of_length_le h]

theorem Partial.grown {h : FrameHeader} (hp : r.Partial phase)
    (hl : r.bytes.length = headerBytes) (ho : r.offset = r.bytes.length)
    (hd : FrameHeader.decode r.bytes = .ok h) :
    Partial phase { r with
      header := some h
      bytes := resize r.bytes (headerBytes + h.payloadLen.toNat + phase.overhead) } ∧
    taken { r with
      header := some h
      bytes := resize r.bytes (headerBytes + h.payloadLen.toNat + phase.overhead) } = r.taken := by
  have hr : resize r.bytes (headerBytes + h.payloadLen.toNat + phase.overhead) = r.bytes ++ _ :=
    resize_le (by omega)
  have hlen : (resize r.bytes (headerBytes + h.payloadLen.toNat + phase.overhead)).length =
      headerBytes + h.payloadLen.toNat + phase.overhead := by
    rw [hr, List.length_append, List.length_replicate]
    omega
  refine ⟨⟨hp.live, ?_, .inr ⟨h, rfl, ?_, ?_, hlen⟩⟩, ?_⟩
  · simp only [hlen]
    omega
  · simp only
    omega
  · rw [show headerBytes = r.bytes.length from hl.symm] at hr ⊢
    simp only [hr, List.take_left, hd]
  · simp only [taken, hr, ho, List.take_left, List.take_length]

theorem serialize_take (f : WireFrame) (rest : List UInt8) :
    (FrameWriter.serialize f ++ rest).take headerBytes = f.header.encode := by
  rw [FrameWriter.serialize, List.append_assoc, List.append_assoc, ← f.header.encode_length,
    List.take_left]

theorem header_unique {f : WireFrame} {k : FrameHeader} (h12 : headerBytes ≤ r.offset)
    (hd : FrameHeader.decode (r.bytes.take headerBytes) = .ok k)
    (ht : r.taken.take headerBytes = f.header.encode) : k = f.header := by
  rw [taken, List.take_take, Nat.min_eq_left h12] at ht
  rw [ht, FrameHeader.decode_encode] at hd
  exact (Except.ok.inj hd).symm

theorem Partial.taken_length (hp : r.Partial phase) : r.taken.length = r.offset := by
  have hoff := hp.offset
  simp only [taken, List.length_take]
  omega

theorem Partial.short (hp : r.Partial phase) (hb : r.bytes ≠ []) (ho : r.offset ≠ r.bytes.length)
    {f : WireFrame} (hf : f.InMode phase) : ¬ FrameWriter.serialize f <+: r.taken := by
  intro h
  have hle := h.length_le
  have hlen := FrameWriter.serialize_length hf
  have hoff := hp.offset
  have ht := hp.taken_length
  rcases hp.shape with ⟨-, he | he⟩ | ⟨k, -, h12, hd, he⟩
  · exact hb he
  · omega
  · obtain ⟨rest, hrest⟩ := h
    rw [header_unique h12 hd (hrest ▸ serialize_take f rest)] at he
    omega

theorem Partial.within (hp : r.Partial phase) {f : WireFrame} {rest : List UInt8}
    (hf : f.InMode phase) (h : r.taken <+: FrameWriter.serialize f ++ rest) :
    r.taken <+: FrameWriter.serialize f := by
  have hlen := FrameWriter.serialize_length hf
  have hoff := hp.offset
  have ht := hp.taken_length
  refine List.prefix_of_prefix_length_le h (List.prefix_append _ _) ?_
  rcases hp.shape with ⟨-, he | he⟩ | ⟨k, -, h12, hd, he⟩
  · simp [taken, he]
  · omega
  · obtain ⟨more, hmore⟩ := h
    have hhead : r.taken.take headerBytes = f.header.encode := by
      rw [← serialize_take f rest, ← hmore, List.take_append_of_le_length (by omega)]
    rw [header_unique h12 hd hhead] at he
    omega

theorem pollLoop_polled {steps : Nat} (hp : r.Partial phase) (hm : r.phase = some phase)
    (hb : r.bytes ≠ [])
    (hn : need = 0 ∨ need = 1 ∧ (2 ≤ steps ∨ 1 ≤ steps ∧ r.header.isSome = true)) :
    Polled phase need r s (pollLoop phase steps r s) := by
  induction steps generalizing r s need with
  | zero =>
    have hz : need = 0 := by omega
    exact .pending (.done s) (by omega) hp hm (by simp)
  | succ steps ih =>
    rw [pollLoop]
    by_cases ho : r.offset = r.bytes.length
    · rw [if_pos ho]
      have ht : r.taken = r.bytes := by rw [taken, ho, List.take_length]
      cases hh : r.header with
      | some h =>
        obtain ⟨f, hmode, hres, hbytes, hf⟩ := finish_frame hp hh ho
        simp only [hf]
        exact .frame (.done s) hmode hres (by simp [hbytes])
      | none =>
        have hl : r.bytes.length = headerBytes := by simpa [hh, hb] using hp.shape
        simp only
        cases hd : FrameHeader.decode r.bytes with
        | error e => exact .header (.done s) (by simp [ht, hl]) (by simp [ht, hd]) rfl
        | ok h =>
          simp only [h.frameLen_ok phase]
          obtain ⟨hp', ht'⟩ := hp.grown hl ho hd
          refine Polled.of_taken ht' (ih hp' hm ?_ ?_)
          · intro he
            have hle := hp'.offset
            rw [he, ho, hl] at hle
            simp [headerBytes] at hle
          · rcases hn with hn | ⟨hn, hs | ⟨-, hs⟩⟩
            · exact .inl hn
            · exact .inr ⟨hn, .inr ⟨by omega, rfl⟩⟩
            · simp [hh] at hs
    · rw [if_neg ho]
      have hle := hp.offset
      have hn1 : need ≤ 1 := by omega
      cases hread : Socket.pollRead s (r.bytes.length - r.offset) with
      | mk out s₁ =>
        cases out with
        | pending => exact .pending (.pending hread) hn1 hp hm (by simp)
        | ready value =>
          cases value with
          | error kind =>
            cases kind with
            | interrupted => exact .after_interrupted hread hn1 (ih hp hm hb (.inl rfl))
            | _ => exact .io (.done s) (by simp) (.inl hread) rfl
          | ok input =>
            simp only
            by_cases hz : input.length = 0
            · rw [if_pos hz]
              obtain rfl := List.eq_nil_of_length_eq_zero hz
              have hend : Ended s s₁ := ⟨_, by omega, hread⟩
              by_cases ho0 : r.offset = 0
              · rw [if_pos ho0]
                exact .finished (.done s) hend (by simp [taken, ho0]) ⟨hp.live.1, rfl⟩
              · rw [if_neg ho0]
                refine .truncated (.done s) hend ?_ ?_ rfl
                · simpa [taken, ho0] using hb
                · simpa using fun f hf => hp.short hb ho hf
            · rw [if_neg hz]
              by_cases hfit : input.length ≤ r.bytes.length - r.offset
              · rw [if_pos hfit]
                obtain ⟨ht, hl⟩ := r.taken_fill
                  (by omega : r.offset + input.length ≤ r.bytes.length)
                refine .after_read hread (by simpa using hz) hn1 ht
                  (ih (hp.fill hb hfit) hm ?_ (.inl rfl))
                intro he
                rw [he] at hl
                simp only [List.length_nil] at hl
                omega
              · rw [if_neg hfit]
                exact .io (.done s) (by simp) (.inr ⟨input, by omega, hread⟩) rfl

theorem pollFrame_polled (hp : r.Partial phase) (hm : r.phase = none ∨ r.phase = some phase) :
    Polled phase 1 r s (r.pollFrame s phase) := by
  have hsteps : 2 ≤ 64 := by decide
  have hphase : ¬ r.phase.any (· != phase) = true := by rcases hm with hm | hm <;> simp [hm]
  simp only [pollFrame, hp.live, Bool.false_eq_true, if_false, if_neg hphase]
  by_cases hb : r.bytes = []
  · have hh : r.header = none := by
      rcases hp.shape with ⟨hh, -⟩ | ⟨h, -, -, -, hl⟩
      · exact hh
      · simp [hb, headerBytes] at hl
        omega
    have ho : r.offset = 0 := by simpa [hb] using hp.offset
    rw [if_pos hb]
    refine Polled.of_taken ?_ (pollLoop_polled ⟨⟨rfl, rfl⟩, ?_, .inl ⟨hh, .inr ?_⟩⟩ rfl ?_
      (.inr ⟨rfl, .inl hsteps⟩))
    · simp [taken, hb, ho]
    · simp [ho]
    · simp
    · simp [headerBytes]
  · rw [if_neg hb]
    refine Polled.of_taken ?_ (pollLoop_polled ⟨⟨rfl, rfl⟩, hp.offset, hp.shape⟩ rfl hb
      (.inr ⟨rfl, .inl hsteps⟩))
    rfl

end FrameReader

end TalkSphere
