import TalkSphere.FramingSchedule

/-! Reading back what was written. The stream may be cut anywhere: the reader returns
the frames that are whole, then either the end of the stream or one truncation. -/

namespace TalkSphere

open Fairness

def wholeFrames : Nat → List WireFrame → List WireFrame
  | _, [] => []
  | cut, f :: fs =>
    if (FrameWriter.serialize f).length ≤ cut then
      f :: wholeFrames (cut - (FrameWriter.serialize f).length) fs
    else []

def OnBoundary (cut : Nat) (frames : List WireFrame) : Prop :=
  (wireBytes frames).take cut = wireBytes (wholeFrames cut frames)

instance (cut : Nat) (frames : List WireFrame) : Decidable (OnBoundary cut frames) :=
  inferInstanceAs (Decidable (_ = _))

def WireFrame.received (f : WireFrame) : WireFrame := { f with reservation := none }

def answer (whole : List WireFrame) (boundary : Bool) (j : Nat) :
    Except FramingError (Option WireFrame) :=
  match whole[j]? with
  | some f => .ok (some f.received)
  | none =>
    if boundary then .ok none
    else if j = whole.length then .error .truncated
    else .error .closed

structure Reading where
  reader : FrameReader := {}
  source : Source
  last : FrameReader.Outcome := .pending
  results : List (Except FramingError (Option WireFrame)) := []

namespace Reading

def turn (phase : FrameProtection) (x : Reading) : Reading :=
  let polled := x.reader.pollFrame x.source phase
  { reader := polled.2.1
    source := polled.2.2
    last := polled.1
    results := match polled.1 with
      | .pending => x.results
      | .ready value => x.results ++ [value] }

def start (acts : Nat → Act) (stream : List UInt8) : Reading where
  source := { acts, rest := stream }

def frame? : Except FramingError (Option WireFrame) → Option WireFrame
  | .ok frame => frame
  | .error _ => none

def returned (x : Reading) : List WireFrame := x.results.filterMap frame?

end Reading

/-- Calls to a source move bytes from what is left to what was given, in order. -/
structure Source.Gave (s : Source) (input : List UInt8) (calls : Nat) (s' : Source) : Prop where
  acts : s'.acts = s.acts
  rest : s.rest = input ++ s'.rest
  given : s'.given = s.given ++ input
  clock : s'.clock = s.clock + calls
  moved : ∀ t, s.clock ≤ t → t < s'.clock → (s.acts t).Moves → input ≠ []

theorem Took.gave {s s' : Source} {input : List UInt8} {calls : Nat}
    (h : Took s input calls s') : s.Gave input calls s' := by
  induction h with
  | done => exact ⟨rfl, rfl, by simp, rfl, fun t h₁ h₂ => by omega⟩
  | @pending s s' room h =>
    simp only [Socket.pollRead] at h
    split at h
    case h_1 ha =>
      obtain rfl := (Prod.mk.inj h).2
      refine ⟨rfl, by simp [Source.give], by simp [Source.give], rfl, fun t h₁ h₂ hm => ?_⟩
      obtain rfl : t = s.clock := by simp only [Source.give] at h₂; omega
      simp [ha, Act.Moves] at hm
    all_goals simp at h
  | @interrupted s s₁ s' room calls input h _ ih =>
    simp only [Socket.pollRead] at h
    split at h
    case h_2 ha =>
      obtain rfl := (Prod.mk.inj h).2
      obtain ⟨acts, rest, given, clock, moved⟩ := ih
      simp only [Source.give, List.drop_zero, List.take_zero, List.append_nil] at *
      refine ⟨acts, rest, given, by omega, fun t h₁ h₂ hm => ?_⟩
      by_cases ht : t = s.clock
      · simp [ht, ha, Act.Moves] at hm
      · exact moved t (by omega) h₂ hm
    all_goals simp at h
  | @read s s₁ s' room calls bytes input h nonempty _ ih =>
    simp only [Socket.pollRead] at h
    split at h
    case h_3 extra ha =>
      obtain ⟨hb, rfl⟩ := Prod.mk.inj h
      obtain rfl := Except.ok.inj (Poll.ready.inj hb)
      obtain ⟨acts, rest, given, clock, moved⟩ := ih
      simp only [Source.give] at *
      refine ⟨acts, ?_, by rw [given, List.append_assoc], by omega, fun _ _ _ _ => ?_⟩
      · rw [List.append_assoc, ← rest, List.take_append_drop]
      · simp [nonempty]
    all_goals simp at h

theorem Ended.source {s s' : Source} (h : Ended s s') :
    s.rest = [] ∧ s'.rest = [] ∧ s'.given = s.given ∧ s'.acts = s.acts ∧ s.clock ≤ s'.clock := by
  obtain ⟨room, hroom, h⟩ := h
  simp only [Socket.pollRead] at h
  split at h
  case h_3 extra ha =>
    obtain ⟨hb, rfl⟩ := Prod.mk.inj h
    have he := Except.ok.inj (Poll.ready.inj hb)
    have hrest : s.rest = [] := by
      rcases List.take_eq_nil_iff.1 he with hz | hz
      · omega
      · exact hz
    simp [Source.give, hrest]
  all_goals simp at h

theorem Source.not_broken {s s' : Source} {room : Nat} {kind : ErrorKind}
    (hard : kind ≠ .interrupted) :
    ¬ (Socket.pollRead s room = (.ready (.error kind), s') ∨
      ∃ bytes, room < bytes.length ∧ Socket.pollRead s room = (.ready (.ok bytes), s')) := by
  simp only [Socket.pollRead]
  cases s.acts s.clock with
  | pending => simp
  | interrupted => simp [hard.symm]
  | move extra =>
    rintro (h | ⟨bytes, hb, h⟩)
    · simp at h
    · obtain rfl := Except.ok.inj (Poll.ready.inj (Prod.mk.inj h).1)
      simp only [List.length_take] at hb
      omega

section Cut

variable {cut : Nat} {f : WireFrame} {fs : List WireFrame}

theorem wholeFrames_cons (h : (FrameWriter.serialize f).length ≤ cut) :
    wholeFrames cut (f :: fs) = f :: wholeFrames (cut - (FrameWriter.serialize f).length) fs :=
  if_pos h

theorem wireBytes_take_cons (h : (FrameWriter.serialize f).length ≤ cut) :
    (wireBytes (f :: fs)).take cut = FrameWriter.serialize f ++
      (wireBytes fs).take (cut - (FrameWriter.serialize f).length) := by
  rw [wireBytes_cons, List.take_append, List.take_of_length_le h]

theorem onBoundary_cons (h : (FrameWriter.serialize f).length ≤ cut) :
    OnBoundary cut (f :: fs) ↔ OnBoundary (cut - (FrameWriter.serialize f).length) fs := by
  rw [OnBoundary, wholeFrames_cons h, wireBytes_take_cons h, wireBytes_cons,
    List.append_cancel_left_eq, OnBoundary]

theorem answer_succ (boundary : Bool) (j : Nat) :
    answer (f :: fs) boundary (j + 1) = answer fs boundary j := by
  simp [answer]

theorem wholeFrames_eq_nil
    (h : ∀ f ∈ fs.head?, ¬ FrameWriter.serialize f <+: (wireBytes fs).take cut) :
    wholeFrames cut fs = [] := by
  cases fs with
  | nil => rfl
  | cons f fs =>
    refine if_neg fun hle => h f (by simp) ?_
    rw [wireBytes_take_cons hle]
    exact List.prefix_append _ _

end Cut

/-- What a reader will return from here on: it is inside a stream of the frames `fs`
that may be cut, or past its end. -/
inductive Expecting (phase : FrameProtection) (front fs : List WireFrame) :
    FrameReader → Source → (Nat → Except FramingError (Option WireFrame)) → Prop
  | reading {r : FrameReader} {s : Source} {cut : Nat} (part : r.Partial phase)
      (mode : r.phase = none ∨ r.phase = some phase)
      (stream : r.taken ++ s.rest = (wireBytes fs).take cut)
      (given : s.given = wireBytes front ++ r.taken) :
      Expecting phase front fs r s (answer (wholeFrames cut fs) (decide (OnBoundary cut fs)))
  | ended {r : FrameReader} {s : Source} (eof : r.failed = false ∧ r.eof = true)
      (given : s.given = wireBytes front) : Expecting phase front fs r s fun _ => .ok none
  | broken {r : FrameReader} {s : Source} {part : List UInt8} (failed : r.failed = true)
      (given : s.given = wireBytes front ++ part) (short : part <+: wireBytes (fs.take 1)) :
      Expecting phase front fs r s fun _ => .error .closed

namespace Expecting

variable {phase : FrameProtection} {front fs : List WireFrame} {r : FrameReader} {s : Source}
  {a : Nat → Except FramingError (Option WireFrame)}

/-- A poll returns the next answer or nothing yet, and stays inside the current frame. -/
inductive Polled (phase : FrameProtection) (front fs : List WireFrame) (s : Source)
    (a : Nat → Except FramingError (Option WireFrame)) :
    FrameReader.Outcome × FrameReader × Source → Prop
  | pending {input : List UInt8} {calls : Nat} {r' : FrameReader} {s' : Source}
      (gave : s.Gave input calls s') (called : 1 ≤ calls) (next : Expecting phase front fs r' s' a) :
      Polled phase front fs s a (.pending, r', s')
  | frame {f : WireFrame} {fs' : List WireFrame} {input : List UInt8} {calls : Nat}
      {r' : FrameReader} {s' : Source} (gave : s.Gave input calls s') (first : fs = f :: fs')
      (value : a 0 = .ok (some f.received)) (given : s'.given = wireBytes (front ++ [f]))
      (next : Expecting phase (front ++ [f]) fs' r' s' fun j => a (j + 1)) :
      Polled phase front fs s a (.ready (.ok (some f.received)), r', s')
  | stop {v : Except FramingError (Option WireFrame)} {r' : FrameReader} {s' : Source}
      (acts : s'.acts = s.acts) (rest : s'.rest.length ≤ s.rest.length)
      (clock : s.clock ≤ s'.clock) (value : a 0 = v) (frameless : Reading.frame? v = none)
      (next : Expecting phase front fs r' s' fun j => a (j + 1)) :
      Polled phase front fs s a (.ready v, r', s')

theorem frame_head {f : WireFrame} {cut : Nat} {rest : List UInt8}
    (hfs : ∀ g ∈ fs, g.InMode phase) (hf : f.InMode phase) (hr : f.reservation = none)
    (h : FrameWriter.serialize f ++ rest = (wireBytes fs).take cut) :
    ∃ g fs', fs = g :: fs' ∧ f = g.received ∧
      FrameWriter.serialize f = FrameWriter.serialize g ∧
      (FrameWriter.serialize g).length ≤ cut ∧
      rest = (wireBytes fs').take (cut - (FrameWriter.serialize g).length) := by
  have hlen := FrameWriter.serialize_length hf
  cases fs with
  | nil =>
    have hz := congrArg List.length h
    simp [hlen, headerBytes] at hz
  | cons g fs' =>
    have hcut : (FrameWriter.serialize f).length ≤ cut := by
      have hz := congrArg List.length h
      simp only [List.length_append, List.length_take] at hz
      omega
    have happ : FrameWriter.serialize f ++ (rest ++ (wireBytes (g :: fs')).drop cut) =
        FrameWriter.serialize g ++ wireBytes fs' := by
      rw [← List.append_assoc, h, List.take_append_drop, wireBytes_cons]
    obtain ⟨hh, hp, ht, -⟩ := FrameWriter.serialize_inj hf (hfs g (by simp)) happ
    have hser : FrameWriter.serialize f = FrameWriter.serialize g := by
      simp only [FrameWriter.serialize, hh, hp, ht]
    refine ⟨g, fs', rfl, ?_, hser, hser ▸ hcut, ?_⟩
    · cases f
      cases g
      simp only at hh hp ht hr
      simp only [WireFrame.received, hh, hp, ht, hr]
    · rw [hser, wireBytes_take_cons (hser ▸ hcut)] at h
      exact List.append_cancel_left h

theorem taken_short {cut : Nat} {rest : List UInt8} (hfs : ∀ g ∈ fs, g.InMode phase)
    (hp : r.Partial phase) (h : r.taken ++ rest = (wireBytes fs).take cut) :
    r.taken <+: wireBytes (fs.take 1) := by
  have hpre : r.taken <+: wireBytes fs :=
    (List.prefix_append _ rest).trans (h ▸ List.take_prefix _ _)
  cases fs with
  | nil => exact hpre
  | cons g fs' =>
    have hg := hp.within (hfs g (by simp)) hpre
    simpa using hg

theorem broken_of_truncated {cut : Nat} {input : List UInt8} {calls : Nat} {s₁ s' : Source}
    {r' : FrameReader} (hfs : ∀ g ∈ fs, g.InMode phase)
    (stream : r.taken ++ s.rest = (wireBytes fs).take cut)
    (given : s.given = wireBytes front ++ r.taken) (hg : s.Gave input calls s₁)
    (ended : Ended s₁ s') (some : r.taken ++ input ≠ [])
    (short : ∀ f : WireFrame, f.InMode phase → ¬ FrameWriter.serialize f <+: r.taken ++ input)
    (failed : r'.failed = true) :
    answer (wholeFrames cut fs) (decide (OnBoundary cut fs)) = answer [] false ∧
      Expecting phase front fs r' s' fun _ => .error .closed := by
  obtain ⟨hrest, -, hgiven, -, -⟩ := ended.source
  rw [hg.rest, hrest, List.append_nil] at stream
  have hwhole : wholeFrames cut fs = [] := by
    refine wholeFrames_eq_nil fun f hf => ?_
    rw [← stream]
    exact short f (hfs f (List.mem_of_mem_head? hf))
  have hbound : ¬ OnBoundary cut fs := by
    rw [OnBoundary, hwhole, ← stream]
    exact some
  have hgiven' : s'.given = wireBytes front ++ (r.taken ++ input) := by
    rw [hgiven, hg.given, given, List.append_assoc]
  refine ⟨by rw [hwhole, decide_eq_false hbound], .broken failed hgiven' ?_⟩
  · cases fs with
    | nil => simpa using stream
    | cons g fs' =>
      have hpre : r.taken ++ input <+: FrameWriter.serialize g ++ wireBytes fs' :=
        stream ▸ List.take_prefix _ _
      have hle : (r.taken ++ input).length ≤ (FrameWriter.serialize g).length := by
        by_contra hlt
        exact short g (hfs g (by simp)) (List.prefix_of_prefix_length_le (List.prefix_append _ _)
          hpre (by omega))
      simpa using List.prefix_of_prefix_length_le hpre (List.prefix_append _ _) hle

theorem header_decodes {cut : Nat} {bytes rest : List UInt8}
    (stream : bytes ++ rest = (wireBytes fs).take cut) (full : bytes.length = headerBytes) :
    ∃ h, FrameHeader.decode bytes = .ok h := by
  cases fs with
  | nil =>
    have hz := congrArg List.length stream
    simp [full, headerBytes] at hz
  | cons g fs' =>
    have hpre : bytes <+: FrameWriter.serialize g ++ wireBytes fs' :=
      (List.prefix_append _ rest).trans (stream ▸ List.take_prefix _ _)
    have hb : bytes = g.header.encode := by
      rw [List.prefix_iff_eq_take.1 hpre, full, FrameReader.serialize_take]
    exact ⟨g.header, by rw [hb, FrameHeader.decode_encode]⟩

theorem poll (h : Expecting phase front fs r s a) (hfs : ∀ g ∈ fs, g.InMode phase) :
    Polled phase front fs s a (r.pollFrame s phase) := by
  cases h with
  | ended eof given =>
    simp only [FrameReader.pollFrame, eof, Bool.false_eq_true, if_false, if_true]
    exact .stop rfl (Nat.le_refl _) (Nat.le_refl _) rfl rfl (.ended eof given)
  | broken failed given short =>
    simp only [FrameReader.pollFrame, failed, if_true]
    exact .stop rfl (Nat.le_refl _) (Nat.le_refl _) rfl rfl (.broken failed given short)
  | @reading cut part mode stream given =>
    have hpoll := FrameReader.pollFrame_polled (s := s) part mode
    generalize r.pollFrame s phase = result at hpoll
    cases hpoll with
    | @pending input calls r' s' took called part' mode' bytes =>
      have hg := took.gave
      refine .pending hg called (.reading part' (.inr mode') ?_ ?_)
      · rw [bytes, List.append_assoc, ← hg.rest, stream]
      · rw [hg.given, given, bytes, List.append_assoc]
    | @frame input calls f s' took fmode unreserved bytes =>
      have hg := took.gave
      rw [hg.rest, ← List.append_assoc, bytes] at stream
      obtain ⟨g, fs', rfl, rfl, hser, hcut, hrest⟩ := frame_head hfs fmode unreserved stream
      have hgiven : s'.given = wireBytes (front ++ [g]) := by
        rw [hg.given, given, List.append_assoc, bytes, hser]
        simp [wireBytes]
      have hans : (fun j => answer (wholeFrames cut (g :: fs'))
          (decide (OnBoundary cut (g :: fs'))) (j + 1)) =
          answer (wholeFrames (cut - (FrameWriter.serialize g).length) fs')
            (decide (OnBoundary (cut - (FrameWriter.serialize g).length) fs')) := by
        funext j
        rw [wholeFrames_cons hcut, answer_succ, decide_eq_decide.2 (onBoundary_cons hcut)]
      refine .frame hg rfl (by rw [wholeFrames_cons hcut]; rfl) hgiven ?_
      rw [hans]
      exact .reading ⟨⟨rfl, rfl⟩, Nat.le_refl _, .inl ⟨rfl, .inl rfl⟩⟩ (.inl rfl) hrest
        (by rw [hgiven]; simp [FrameReader.taken])
    | @finished calls r' s₁ s' took ended empty eof =>
      have hg := took.gave
      obtain ⟨hrest, hrest', hgiven, hacts, hclock⟩ := ended.source
      rw [empty, hg.rest, hrest] at stream
      have hwhole : wholeFrames cut fs = [] := by
        refine wholeFrames_eq_nil fun f hf hpre => ?_
        have hlen := FrameWriter.serialize_length (hfs f (List.mem_of_mem_head? hf))
        have hle := hpre.length_le
        simp [← stream, hlen, headerBytes] at hle
      have hans : answer (wholeFrames cut fs) (decide (OnBoundary cut fs)) = fun _ => .ok none := by
        funext j
        have hb : OnBoundary cut fs := by rw [OnBoundary, hwhole, ← stream]; rfl
        simp [answer, hwhole, hb]
      rw [hans]
      refine .stop (hacts.trans hg.acts) (by simp [hrest']) (by rw [hg.clock] at hclock; omega) rfl
        rfl (.ended eof ?_)
      rw [hgiven, hg.given, given, empty, List.append_nil, List.append_nil]
    | @truncated input calls r' s₁ s' took ended some short failed =>
      have hg := took.gave
      obtain ⟨-, hrest', -, hacts, hclock⟩ := ended.source
      obtain ⟨ha, hnext⟩ := broken_of_truncated hfs stream given hg ended some short failed
      rw [ha]
      refine .stop (hacts.trans hg.acts) (by simp [hrest']) (by rw [hg.clock] at hclock; omega) rfl
        rfl ?_
      have hclosed : (fun j => answer [] false (j + 1)) = fun _ => .error .closed := by
        funext j
        simp [answer]
      rw [hclosed]
      exact hnext
    | @header input calls r' s' e took full bad failed =>
      rw [took.gave.rest, ← List.append_assoc] at stream
      obtain ⟨h, hd⟩ := header_decodes stream full
      simp [hd] at bad
    | @io input calls room kind r' s₁ s' took hard broken failed =>
      exact absurd broken (Source.not_broken hard)

end Expecting

theorem Expecting.given_within {phase : FrameProtection} {front fs : List WireFrame}
    {r : FrameReader} {s : Source} {a : Nat → Except FramingError (Option WireFrame)}
    (h : Expecting phase front fs r s a) (hfs : ∀ g ∈ fs, g.InMode phase) :
    s.given <+: wireBytes (front ++ fs.take 1) := by
  have happ : wireBytes (front ++ fs.take 1) = wireBytes front ++ wireBytes (fs.take 1) := by
    simp [wireBytes]
  rw [happ]
  cases h with
  | reading part _ stream given =>
    rw [given, List.prefix_append_right_inj]
    exact Expecting.taken_short hfs part stream
  | ended _ given => exact given ▸ List.prefix_append _ _
  | broken _ given short =>
    rw [given, List.prefix_append_right_inj]
    exact short

namespace Reading

variable {phase : FrameProtection} {frames : List WireFrame} {acts : Nat → Act}
  {a : Nat → Except FramingError (Option WireFrame)} {x : Reading}

/-- Where a reading run stands: the frames it returned and the answers still to come. -/
structure Sound (phase : FrameProtection) (frames : List WireFrame) (acts : Nat → Act)
    (a : Nat → Except FramingError (Option WireFrame)) (front fs : List WireFrame)
    (x : Reading) : Prop where
  split : frames = front ++ fs
  returned : x.returned = front.map WireFrame.received
  results : x.results = (List.range x.results.length).map a
  expecting : Expecting phase front fs x.reader x.source fun j => a (x.results.length + j)
  exact : ∀ f, x.last = .ready (.ok (some f)) → x.source.given = wireBytes front
  acts : x.source.acts = acts

theorem answers_concat {results : List (Except FramingError (Option WireFrame))}
    {v : Except FramingError (Option WireFrame)}
    (h : results = (List.range results.length).map a) (hv : a (results.length + 0) = v) :
    results ++ [v] = (List.range (results ++ [v]).length).map a := by
  rw [List.length_append, List.length_singleton, List.range_succ, List.map_append, ← h, ← hv]
  rfl

theorem answers_shift (results : List (Except FramingError (Option WireFrame)))
    (v : Except FramingError (Option WireFrame)) :
    (fun j => a (results.length + (j + 1))) = fun j => a ((results ++ [v]).length + j) := by
  funext j
  rw [List.length_append, List.length_singleton, Nat.add_assoc, Nat.add_comm 1 j]

theorem Sound.turn {front fs : List WireFrame} (hmode : ∀ f ∈ frames, f.InMode phase)
    (hx : x.Sound phase frames acts a front fs) :
    ∃ front' fs', (x.turn phase).Sound phase frames acts a front' fs' ∧
      (x.turn phase).source.rest.length ≤ x.source.rest.length ∧
      (x.results.length < (x.turn phase).results.length ∨
        (x.turn phase).results = x.results ∧ x.source.clock < (x.turn phase).source.clock ∧
        ∀ t, x.source.clock ≤ t → t < (x.turn phase).source.clock → (acts t).Moves →
          (x.turn phase).source.rest.length < x.source.rest.length) := by
  have hfs : ∀ g ∈ fs, g.InMode phase := fun g hg => hmode g (by simp [hx.split, hg])
  have hp := hx.expecting.poll hfs
  simp only [Reading.turn]
  generalize x.reader.pollFrame x.source phase = result at hp
  cases hp with
  | @pending input calls r' s' gave called next =>
    have hlen : x.source.rest.length = input.length + s'.rest.length := by
      rw [gave.rest, List.length_append]
    refine ⟨front, fs, ⟨hx.split, hx.returned, hx.results, next, by simp, gave.acts.trans hx.acts⟩,
      by simp only; omega, .inr ⟨rfl, ?_, fun t h₁ h₂ hm => ?_⟩⟩
    · simp only [gave.clock]
      omega
    · have hne := gave.moved t h₁ h₂ (hx.acts ▸ hm)
      have hpos := List.length_pos_iff.2 hne
      simp only
      omega
  | @frame f fs' input calls r' s' gave first value given next =>
    have hlen : x.source.rest.length = input.length + s'.rest.length := by
      rw [gave.rest, List.length_append]
    refine ⟨front ++ [f], fs', ⟨by simp [hx.split, first], ?_, ?_, ?_, fun _ _ => given,
      gave.acts.trans hx.acts⟩, by simp only; omega, .inl (by simp)⟩
    · have hret := hx.returned
      simp only [Reading.returned] at hret ⊢
      simp [hret, Reading.frame?]
    · exact answers_concat hx.results value
    · rw [← answers_shift]
      exact next
  | @stop v r' s' sacts rest clock value frameless next =>
    refine ⟨front, fs, ⟨hx.split, ?_, answers_concat hx.results value, ?_, fun f hf => ?_,
      sacts.trans hx.acts⟩, rest, .inl (by simp)⟩
    · have hret := hx.returned
      simp only [Reading.returned] at hret ⊢
      simp [hret, frameless]
    · rw [← answers_shift]
      exact next
    · obtain rfl := Poll.ready.inj hf
      simp [Reading.frame?] at frameless

theorem Sound.start (phase : FrameProtection) (frames : List WireFrame) (acts : Nat → Act)
    (cut : Nat) : (Reading.start acts ((wireBytes frames).take cut)).Sound phase frames acts
      (answer (wholeFrames cut frames) (decide (OnBoundary cut frames))) [] frames := by
  refine ⟨rfl, rfl, rfl, ?_, by simp [Reading.start], rfl⟩
  simp only [Reading.start, List.length_nil, Nat.zero_add]
  exact .reading ⟨⟨rfl, rfl⟩, Nat.le_refl _, .inl ⟨rfl, .inl rfl⟩⟩ (.inl rfl)
    (by simp [FrameReader.taken]) (by simp [FrameReader.taken])

theorem Sound.run {front fs : List WireFrame} (hmode : ∀ f ∈ frames, f.InMode phase)
    (hx : x.Sound phase frames acts a front fs) (m : Nat) :
    ∃ front fs, ((Reading.turn phase)^[m] x).Sound phase frames acts a front fs := by
  induction m with
  | zero => exact ⟨front, fs, hx⟩
  | succ m ih =>
    obtain ⟨front', fs', ih⟩ := ih
    obtain ⟨front'', fs'', h, -⟩ := ih.turn hmode
    exact ⟨front'', fs'', by rwa [Function.iterate_succ_apply']⟩

theorem Sound.answered {front fs : List WireFrame} (hfair : FairSchedule acts)
    (hmode : ∀ f ∈ frames, f.InMode phase) (hx : x.Sound phase frames acts a front fs)
    (count : Nat) : ∃ m, count ≤ ((Reading.turn phase)^[m] x).results.length := by
  let inv (x : Reading) : Prop := ∃ front fs, x.Sound phase frames acts a front fs
  let work (x : Reading) : Nat := x.source.rest.length + (count - x.results.length)
  have hstep : ∀ x, inv x → ¬ count ≤ x.results.length → inv (x.turn phase) ∧
      Advances (fun t => (acts t).Moves) (·.source.clock) work x (x.turn phase) := by
    rintro x ⟨front, fs, hx⟩ hn
    obtain ⟨front', fs', h, hrest, hres | ⟨hres, hclock, hmoved⟩⟩ := hx.turn hmode
    · have hw : work (x.turn phase) < work x := by simp only [work]; omega
      exact ⟨⟨front', fs', h⟩, hw.le, .inl hw, fun _ _ _ _ => hw⟩
    · refine ⟨⟨front', fs', h⟩, by simp only [work, hres]; omega, .inr hclock,
        fun t h₁ h₂ hm => ?_⟩
      have hlt := hmoved t h₁ h₂ hm
      simp only [work, hres]
      omega
  exact reaches hfair hstep ⟨front, fs, hx⟩

end Reading

/-- Whatever the two schedules do, what is written frame by frame is read back frame by
frame, to the place where the stream is cut and not a byte further than the frame being
read. -/
theorem framing_round_trip (phase : FrameProtection) {frames : List WireFrame}
    (hmode : ∀ f ∈ frames, f.InMode phase) {writes reads : Nat → Act}
    (hw : FairSchedule writes) (hr : FairSchedule reads) (cut : Nat) :
    (∀ m, ((Writing.turn phase)^[m] (.start writes frames)).errors = []) ∧
    ∃ m, ((Writing.turn phase)^[m] (.start writes frames)).Finished ∧
      let start := Reading.start reads
        (((Writing.turn phase)^[m] (.start writes frames)).sink.written.take cut)
      (∀ l, let x := (Reading.turn phase)^[l] start
        x.results = (List.range x.results.length).map
          (answer (wholeFrames cut frames) (decide (OnBoundary cut frames))) ∧
        ∃ front fs, frames = front ++ fs ∧ x.returned = front.map WireFrame.received ∧
          x.source.given <+: wireBytes (front ++ fs.take 1) ∧
          ∀ f, x.last = .ready (.ok (some f)) → x.source.given = wireBytes front) ∧
      ∀ count, ∃ l, count ≤ ((Reading.turn phase)^[l] start).results.length := by
  obtain ⟨hsafe, hlive⟩ := Writing.written phase writes hmode
  obtain ⟨m, hfin, hbytes⟩ := hlive hw
  refine ⟨fun m => (hsafe m).1, m, hfin, ?_⟩
  rw [hbytes]
  have hstart := Reading.Sound.start phase frames reads cut
  refine ⟨fun l => ?_, hstart.answered hr hmode⟩
  obtain ⟨front, fs, hx⟩ := hstart.run hmode l
  have hfs : ∀ g ∈ fs, g.InMode phase := fun g hg => hmode g (by simp [hx.split, hg])
  exact ⟨hx.results, front, fs, hx.split, hx.returned, hx.expecting.given_within hfs, hx.exact⟩

def stutter (t : Nat) : Act :=
  if t % 3 = 0 then .pending else if t % 3 = 1 then .interrupted else .move 0

theorem stutter_fair : FairSchedule stutter := fun t =>
  ⟨3 * t + 2, by omega, by
    have h : (3 * t + 2) % 3 = 2 := by omega
    simp [stutter, h, Act.Moves]⟩

def WireFrame.sampleEnd (id : UInt32) (h : id ≠ 0) : WireFrame where
  reservation := none
  header := ⟨.end_, id, 0, by decide, by simp [FrameType.validStreamId, h]⟩
  payload := []
  tag := none
  payload_length := rfl

/-- A stream cut one byte short of its second frame. -/
theorem framing_round_trip_cut :
    ∃ m, ((Writing.turn .untagged)^[m] (.start stutter
        [.sampleEnd 1 (by decide), .sampleEnd 3 (by decide)])).Finished ∧
      ∃ l, 2 ≤ ((Reading.turn .untagged)^[l] (.start stutter
        (((Writing.turn .untagged)^[m] (.start stutter
          [.sampleEnd 1 (by decide), .sampleEnd 3 (by decide)])).sink.written.take
            23))).results.length ∧
      answer (wholeFrames 23 [.sampleEnd 1 (by decide), .sampleEnd 3 (by decide)])
        (decide (OnBoundary 23 [.sampleEnd 1 (by decide), .sampleEnd 3 (by decide)])) 1 =
          .error .truncated := by
  have hmode : ∀ f ∈ [WireFrame.sampleEnd 1 (by decide), .sampleEnd 3 (by decide)],
      f.InMode .untagged := by
    simp [WireFrame.InMode, WireFrame.sampleEnd]
  obtain ⟨-, m, hfin, -, hlive⟩ := framing_round_trip .untagged hmode stutter_fair stutter_fair 23
  obtain ⟨l, hl⟩ := hlive 2
  exact ⟨m, hfin, l, hl, by decide +kernel⟩

end TalkSphere
