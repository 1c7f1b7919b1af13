import TalkSphere.SessionKeeps

/-! The local calls of a session as endpoint steps. A call that fails leaves the
endpoint where it was, except that exhausted ids announce a drain. -/

namespace TalkSphere

open Std (TreeMap)
open Relation (ReflTransGen)

namespace Session

variable {h : History} {s s' : Session} {I : UInt32 → Prop} {n : Nat}

theorem Ready.works (hs : Ready h s) (works : Works I n s s') : Ready h s' :=
  ⟨(works.lift (R := fun _ _ => True) (fun _ => trivial) (fun _ _ => trivial)
    (fun _ work hs => ⟨work.sound hs, trivial⟩) hs.sound).1,
    hs.seen_le.trans works.keeps.events.length_le⟩

theorem Sound.open_of_stream (hs : s.Sound) {id : UInt32} {state : StreamState}
    (hstream : s.streams[id]? = some state) : s.closed = false := by
  cases hc : s.closed with
  | false => rfl
  | true =>
    rw [hs.closed_streams hc id] at hstream
    cases hstream

theorem complete_moves (hs : Ready h s) (id : UInt32) : Moves h s (s.complete id) := by
  unfold complete
  split
  case h_1 => exact .refl hs
  case h_2 state hstream =>
    split
    case isFalse => exact .refl hs
    case isTrue hd =>
      simp only [Bool.and_eq_true, Bool.not_eq_true'] at hd
      have hl := hs.seen_le
      refine ⟨⟨hs.sound.of_sub rfl rfl hs.sound.ids (erase_sub s.streams id), by simp; omega⟩, .single ?_⟩
      have hstep := Endpoint.Local.completed (e := s.endpoint h)
        (hs.sound.open_of_stream hstream) hstream hd.1 hd.2
      have he := FiniteMap.lookup_erase s.streams id
      simpa only [endpoint, he, List.drop_append_of_le_length hl, List.append_assoc] using hstep

theorem tick_moves (hs : Ready h s) (now : Instant) : Moves h s (s.tick now) := by
  have hl := hs.seen_le
  have hr : Ready h (s.tick now) := by
    refine ⟨⟨hs.sound.keyed, hs.sound.closed_streams, fun hc => ?_, hs.sound.ids⟩, by simp [tick]; omega⟩
    have hp := hs.sound.closed_pings hc
    simp [tick, hp]
  refine ⟨hr, ?_⟩
  simp only [tick, endpoint, List.drop_append_of_le_length hl, ← List.append_assoc]
  by_cases hc : s.closed = true
  · rw [hs.sound.closed_pings hc]
    simp only [List.filter_nil, List.map_nil, List.append_nil]
    exact .refl
  · refine .single (Endpoint.Local.note (e := s.endpoint h) _ (Bool.eq_false_iff.mpr hc) ?_)
    intro ev hev
    obtain ⟨token, -, rfl⟩ := List.mem_map.mp hev
    exact ⟨_, _, _, rfl⟩

theorem endpoint_enrolled (hs : Ready h s) (ids : StreamIds) (stream : StreamHandle)
    (protocol : Protocol) :
    (({ s with ids } : Session).enrolled stream protocol).endpoint h =
      (s.endpoint h).enroll stream.wireId ids s.context stream protocol := by
  have hi := FiniteMap.lookup_insert s.streams stream.wireId ⟨stream, true, true, false⟩
  simp only [enrolled, endpoint, Endpoint.enroll, hi, List.drop_append_of_le_length hs.seen_le,
    List.append_assoc]

theorem close_moves (hs : Ready h s) (failure : Failure) (response : Option ErrorCode)
    (hf : (StreamOutcome.failed failure).Plain) (hr : ∀ code ∈ response, code.Plain) :
    Moves h s (s.close (some failure) response) := by
  by_cases hc : s.closed = true
  · rw [close, if_pos hc]
    exact .refl hs
  · have hopen : s.closed = false := Bool.eq_false_iff.mpr hc
    obtain ⟨reply, hreply, he, hready⟩ := endpoint_close hs hopen (some failure) response
    refine ⟨hready, .single ?_⟩
    rw [he]
    exact .close reply hopen (closingEvents_closing hs.sound h _) hf
      fun code hcode => hr code (hreply code hcode)

/-- A call that is served is one step; a send is one of a longer history. -/
theorem Served.moves (hs : Ready h s) {c : Call} (done : Served s c s')
    (hc : ∀ owner stream bytes, c ≠ .send owner stream bytes) : Moves h s s' := by
  cases done with
  | @open_ registry owner protocol _ id ids f lease resources live unsent unheard events slots
      allocated nonzero fits =>
    have hm : f.message = .open_ id := by simp [WireFrame.message, fits.kind, fits.own]
    refine ⟨hs.works (I := fun _ => True) (.single trivial
      (.opened owner protocol live nonzero slots hs.sound.ids allocated fits)), .single ?_⟩
    rw [endpoint_pushed, endpoint_enrolled hs, hm]
    exact .open_ (e := s.endpoint h) s.context ⟨s.handle.id, owner, id, nonzero⟩ protocol live
      unsent unheard allocated rfl
  | send => exact absurd rfl (hc _ _ _)
  | @end_ _ stream state f lease resources live found going fits =>
    have hm : f.message = .end_ stream.wireId := by
      simp [WireFrame.message, fits.kind, fits.own, fits.payload]
    refine ⟨hs.works (I := fun _ => True) ((fits.works (by decide) trivial).trans
      (.single trivial (.marked _ found rfl))), .single ?_⟩
    have hstep := Endpoint.Local.end_ (e := s.endpoint h) live found going
    have he := FiniteMap.lookup_insert s.streams stream.wireId { state with localOpen := false }
    rw [← hm, ← endpoint_pushed s h f lease resources] at hstep
    simp only [endpoint, ← he] at hstep
    exact hstep
  | @cancel _ stream reason state f lease resources live found fits =>
    have hcode : cancellationCode reason ≠ .noError := by cases reason <;> decide
    have hplain : (peerOutcome .cancel (cancellationCode reason)).Plain := by
      cases reason <;> trivial
    have hm : f.message = .stop stream.wireId (peerOutcome .cancel (cancellationCode reason)) := by
      simp only [WireFrame.message, fits.kind, fits.payload,
        ErrorPayload.decode_encode_blank hcode, fits.own]
      rfl
    refine ⟨(hs.terminate _ _).pushed f lease resources, .single ?_⟩
    have hstep := Endpoint.Local.stop (e := s.endpoint h)
      (some (peerOutcome .cancel (cancellationCode reason))) live found
      (show (StreamOutcome.cancelled .local_ reason).Plain from trivial) (by simp)
      (by simpa using hplain)
    rw [endpoint_pushed, endpoint_terminate hs found, hm]
    exact hstep
  | @overfull _ stream reason lacks =>
    obtain ⟨live, -, ⟨state, found⟩, -⟩ := lacks
    have hs₁ := hs.terminate stream.wireId (.cancelled .local_ reason)
    refine Moves.trans ⟨hs₁, .single ?_⟩
      (close_moves hs₁ _ none ⟨(by rintro ⟨⟩), (by rintro ⟨⟩)⟩ (by simp))
    have hstep := Endpoint.Local.stop (e := s.endpoint h) none live found
      (show (StreamOutcome.cancelled .local_ reason).Plain from trivial) (by simp) (by simp)
    rw [endpoint_terminate hs found]
    simpa [Endpoint.drop] using hstep
  | @ping token timeout now f lease resources live fresh few fits =>
    have hm : f.message = .probe := by simp [WireFrame.message, fits.kind, fits.payload]
    refine ⟨⟨⟨hs.sound.keyed, hs.sound.closed_streams, fun hcl => ?_, hs.sound.ids⟩, hs.seen_le⟩,
      .single ?_⟩
    · simp [pushed, live] at hcl
    · have hstep := Endpoint.Local.probe (e := s.endpoint h) live
      rw [← hm, ← endpoint_pushed s h f lease resources] at hstep
      exact hstep
  | draining => exact .refl hs
  | @drain reason f lease resources live unsent fits =>
    have hm : f.message = .goAway (s.endpoint h).acceptedRemote (shutdownCode reason) := by
      simp only [WireFrame.message, fits.kind, fits.payload, GoAway.decode_encode_blank]
      rfl
    refine ⟨hs.of_same rfl rfl rfl rfl le_rfl, .single ?_⟩
    have hstep := Endpoint.Local.drain (e := s.endpoint h) (shutdownCode reason) live unsent
    rw [← hm, ← endpoint_pushed s h f lease resources] at hstep
    exact hstep

theorem Served.sends (hs : Ready h s) {owner : StreamOwner} {stream : StreamHandle}
    {bytes : List UInt8} (done : Served s (.send owner stream bytes) s') : Ready h s' ∧
      Endpoint.Local (s.endpoint h)
        (s'.endpoint { h with sends := h.sends ++ [(stream.wireId, bytes)] }) := by
  cases done with
  | @send _ _ _ state f lease resources live found going content fits =>
    have hm : f.message = .data stream.wireId bytes := by
      simp [WireFrame.message, fits.kind, fits.own, fits.payload, content]
    have hstep := Endpoint.Local.send (e := s.endpoint h) live found going content
    rw [← hm, ← endpoint_pushed s h f lease resources] at hstep
    exact ⟨hs.pushed f lease resources, hstep⟩

theorem Answer.moves {α : Type} (hs : Ready h s) {c : Call}
    {out : Except SessionError α × Session} (answer : Answer s c out)
    (hc : ∀ owner stream bytes, c ≠ .send owner stream bytes) : Moves h s out.2 := by
  cases answer with
  | refused => exact .refl hs
  | served a done => exact done.moves hs hc

theorem open_moves (hs : Ready h s) (registry : Registry) (owner : StreamOwner) :
    Moves h s (s.open_ registry owner).2 := by
  have ha := open_answer hs.sound.ids registry owner
  generalize s.open_ registry owner = out at ha ⊢
  cases ha with
  | answer answer => exact answer.moves hs (by rintro _ _ _ ⟨⟩)
  | exhausted drained =>
    have hm := (s.drain_answer .idExhausted).moves hs (by rintro _ _ _ ⟨⟩)
    rw [drained] at hm
    exact hm

def History.report (h : History) (kind : FrameType) (id : UInt32) : History :=
  if kind = .end_ then { h with reports := h.reports ++ [id] } else h

theorem sent_moves (hs : Ready h s) (kind : FrameType) (id : UInt32) :
    Ready (History.report h kind id) (s.sent kind id) ∧ ReflTransGen Endpoint.Local (s.endpoint h)
      ((s.sent kind id).endpoint (History.report h kind id)) := by
  unfold sent History.report
  by_cases hk : kind = .end_
  · subst hk
    simp only [reduceCtorEq, if_false, if_true]
    have hstep := Endpoint.Local.reported (e := s.endpoint h) id
    cases hstream : s.streams[id]? with
    | none =>
      have hc : s.complete id = s := by simp [complete, hstream]
      have he : (s.endpoint h).streams id = none := hstream
      rw [he, Option.map_none, ← he, Function.update_eq_self] at hstep
      simp only [hc]
      exact ⟨⟨hs.sound, hs.seen_le⟩, .single hstep⟩
    | some state =>
      simp only
      have he : (s.endpoint h).streams id = some state := hstream
      have hi := FiniteMap.lookup_insert s.streams id
        { state with localEndWritten := !state.localOpen }
      rw [he, Option.map_some] at hstep
      simp only [endpoint, ← hi] at hstep
      have hr : Ready { h with reports := h.reports ++ [id] } { s with
          streams := s.streams.insert id { state with localEndWritten := !state.localOpen } } :=
        ⟨hs.sound.of_sub rfl rfl hs.sound.ids (insert_sub hstream rfl), hs.seen_le⟩
      have hm := complete_moves hr id
      exact ⟨hm.1, .head hstep hm.2⟩
  · simp only [hk, if_false]
    split
    · exact ⟨hs.of_same rfl rfl rfl rfl le_rfl, .refl⟩
    · exact ⟨hs, .refl⟩

end Session

end TalkSphere
