import Mathlib.Algebra.BigOperators.Group.List.Basic
import TalkSphere.ClosedSession
import TalkSphere.Outcome

/-! The outbound budget that connections share. Every queued frame and every frame in a
writer has a lease of its serialized size, and the counter is the sum of the leases. -/

namespace TalkSphere

open Relation (ReflTransGen)

/-- Serialized size of a frame with a header, and a tag where `overhead` counts one. -/
def WireFrame.size (overhead : Nat) (f : WireFrame) : Nat := f.payload.length + overhead

def totalSize (overhead : Nat) (frames : List WireFrame) : Nat :=
  (frames.map (WireFrame.size overhead)).sum

@[simp] theorem totalSize_nil (overhead : Nat) : totalSize overhead [] = 0 := rfl

@[simp] theorem totalSize_cons (overhead : Nat) (f : WireFrame) (frames : List WireFrame) :
    totalSize overhead (f :: frames) = f.size overhead + totalSize overhead frames := rfl

@[simp] theorem totalSize_append (overhead : Nat) (l l' : List WireFrame) :
    totalSize overhead (l ++ l') = totalSize overhead l + totalSize overhead l' := by
  simp [totalSize]

theorem totalSize_filter (overhead : Nat) (keep : WireFrame → Bool) (frames : List WireFrame) :
    totalSize overhead (frames.filter keep) + totalSize overhead (frames.filter fun f => !keep f) =
      totalSize overhead frames := by
  induction frames with
  | nil => rfl
  | cons f frames ih =>
    cases hk : keep f <;> simp only [List.filter_cons, hk, Bool.not_true, Bool.not_false, if_true,
      Bool.false_eq_true, if_false, totalSize_cons] <;> omega

def Leased (overhead : Nat) (frames : List WireFrame) : Prop :=
  ∀ f ∈ frames, f.reservation = some ⟨f.size overhead⟩

theorem Session.releaseAll_covered {overhead : Nat} {frames : List WireFrame} {r : Resources}
    (hl : Leased overhead frames) (h : totalSize overhead frames ≤ r.outboundUsed) :
    releaseAll r frames =
      { r with outboundUsed := r.outboundUsed - totalSize overhead frames } := by
  induction frames generalizing r with
  | nil => rfl
  | cons f frames ih =>
    simp only [totalSize_cons] at h ⊢
    have hf : r.releaseOutbound f.reservation =
        { r with outboundUsed := r.outboundUsed - f.size overhead } := by
      rw [hl f List.mem_cons_self]
      exact Resources.releaseOutbound_covered (by omega)
    rw [releaseAll, List.foldl_cons, hf, ← releaseAll,
      ih (fun g hg => hl g (List.mem_cons_of_mem _ hg)) (by simp only; omega), Nat.sub_sub]

/-- The counters when `owed` bytes and `slots` connections are accounted for. -/
structure Resources.Holds (limits : ResourceLimits) (owed slots : Nat) (r : Resources) : Prop where
  policy : r.limits = limits
  outbound : r.outboundUsed = owed
  bounded : owed ≤ limits.outboundBytes
  connections : r.connectionsUsed = slots
  covered : r.underflowed = false

namespace Resources.Holds

variable {limits : ResourceLimits} {owed owed' slots slots' amount : Nat} {r : Resources}

theorem cast (h : r.Holds limits owed slots) (ho : owed' = owed) (hs : slots' = slots) :
    r.Holds limits owed' slots' :=
  ho ▸ hs ▸ h

theorem of_eq (h : r.Holds limits owed slots) (ho : owed' = owed) : r.Holds limits owed' slots :=
  h.cast ho rfl

theorem reserve {lease : Reservation} {r' : Resources} (h : r.Holds limits owed slots)
    (hr : r.outbound amount = some (lease, r')) :
    lease = ⟨amount⟩ ∧ r'.Holds limits (owed + amount) slots := by
  obtain ⟨rfl, rfl, hfit⟩ := outbound_eq_some hr
  have ho := h.outbound
  have hlim := h.policy
  exact ⟨rfl, hlim, by simp only; omega, by rw [← ho, ← hlim]; exact hfit, h.connections, h.covered⟩

theorem release (h : r.Holds limits (owed + amount) slots) :
    (r.releaseOutbound (some ⟨amount⟩)).Holds limits owed slots := by
  have ho := h.outbound
  rw [releaseOutbound_covered (by omega)]
  exact ⟨h.policy, by simp only; omega, by have := h.bounded; omega, h.connections, h.covered⟩

theorem admission {lease : Reservation} {r' : Resources} (h : r.Holds limits owed slots)
    (hr : r.connection = some (lease, r')) :
    lease = ⟨1⟩ ∧ r'.Holds limits owed (slots + 1) := by
  simp only [connection, TalkSphere.reserve] at hr
  split_ifs at hr
  · obtain ⟨rfl, rfl⟩ : ⟨1⟩ = lease ∧ _ = r' := by simpa using hr
    exact ⟨rfl, h.policy, h.outbound, h.bounded, congrArg (· + 1) h.connections, h.covered⟩
  · cases hr

theorem releaseAll {overhead : Nat} {frames : List WireFrame} (hl : Leased overhead frames)
    (h : r.Holds limits (owed + totalSize overhead frames) slots) :
    (Session.releaseAll r frames).Holds limits owed slots := by
  have ho := h.outbound
  rw [Session.releaseAll_covered hl (by omega)]
  exact ⟨h.policy, by simp only; omega, by have := h.bounded; omega, h.connections, h.covered⟩

end Resources.Holds

/-- The queue of a session within a budget where `others` bytes belong elsewhere. -/
structure Output.Balanced (limits : ResourceLimits) (others slots : Nat) (o : Output) : Prop where
  leased : Leased queuedOverhead o.queue
  holds : o.resources.Holds limits (totalSize queuedOverhead o.queue + others) slots

namespace Output.Balanced

variable {limits : ResourceLimits} {others slots : Nat} {o o' : Output}

theorem push {f : WireFrame} {lease : Reservation} {resources : Resources}
    (h : o.Balanced limits others slots)
    (hr : o.resources.outbound (f.payload.length + queuedOverhead) = some (lease, resources)) :
    Leased queuedOverhead (o.queue ++ [f.leased lease]) ∧
      resources.Holds limits (totalSize queuedOverhead (o.queue ++ [f.leased lease]) + others)
        slots := by
  obtain ⟨rfl, hh⟩ := h.holds.reserve hr
  refine ⟨fun g hg => ?_, ?_⟩
  · rcases List.mem_append.mp hg with hg | hg
    · exact h.leased g hg
    · obtain rfl := List.mem_singleton.mp hg
      rfl
  · have hsize : (f.leased ⟨f.payload.length + queuedOverhead⟩).size queuedOverhead =
        f.payload.length + queuedOverhead := rfl
    simp only [totalSize_append, totalSize_cons, totalSize_nil, hsize, Nat.add_zero]
    exact hh.of_eq (by omega)

theorem act {e : Edit} (h : o.Balanced limits others slots) (ha : Act o e o') :
    o'.Balanced limits others slots := by
  cases ha with
  | push hkind hroom => exact ⟨(h.push hroom).1, (h.push hroom).2⟩
  | opens hkind hfresh hroom => exact ⟨(h.push hroom).1, (h.push hroom).2⟩
  | purge id =>
    have hsplit := totalSize_filter queuedOverhead (Session.retained id) o.queue
    refine ⟨fun f hf => h.leased f (List.mem_filter.mp hf).1, .releaseAll
      (fun f hf => h.leased f (List.mem_filter.mp hf).1) (h.holds.of_eq (by simp only; omega))⟩
  | shut =>
    refine ⟨fun f hf => (List.not_mem_nil hf).elim, .releaseAll h.leased (h.holds.of_eq ?_)⟩
    rw [totalSize_nil, Nat.zero_add, Nat.add_comm]

theorem acts {edits : List Edit} (h : o.Balanced limits others slots) (ha : Acts o edits o') :
    o'.Balanced limits others slots := by
  induction ha with
  | refl => exact h
  | tail _ ha ih => exact ih.act ha

end Output.Balanced

structure Account where
  queue : List WireFrame
  output : List WireFrame
  writer : FrameWriter
  admission : Option Reservation
  resources : Resources

namespace Account

/-- The serialized sizes of queued frames, of queued handshake frames and of the frame in
the writer. -/
def owed (a : Account) : Nat :=
  totalSize queuedOverhead a.queue + totalSize handshakeOverhead a.output + a.writer.bytes.length

def slots (a : Account) : Nat := if a.admission.isSome then 1 else 0

structure Balanced (limits : ResourceLimits) (others slots : Nat) (a : Account) : Prop where
  queue : Leased queuedOverhead a.queue
  output : Leased handshakeOverhead a.output
  writer : a.writer.reservation =
    if a.writer.bytes = [] then none else some ⟨a.writer.bytes.length⟩
  admission : ∀ lease ∈ a.admission, lease = ⟨1⟩
  holds : a.resources.Holds limits (a.owed + others) (a.slots + slots)

structure Owned (a : Account) : Prop where
  queue : Leased queuedOverhead a.queue
  output : Leased handshakeOverhead a.output
  writer : a.writer.reservation =
    if a.writer.bytes = [] then none else some ⟨a.writer.bytes.length⟩
  admission : ∀ lease ∈ a.admission, lease = ⟨1⟩

variable {limits : ResourceLimits} {others slots amount : Nat} {a : Account}

theorem Balanced.owned (hb : a.Balanced limits others slots) : a.Owned :=
  ⟨hb.queue, hb.output, hb.writer, hb.admission⟩

theorem Balanced.drop (hb : a.Balanced limits (others + amount) slots) :
    Balanced limits others slots
      { a with resources := a.resources.releaseOutbound (some ⟨amount⟩) } :=
  ⟨hb.queue, hb.output, hb.writer, hb.admission,
    .release (by rw [Nat.add_assoc]; exact hb.holds)⟩

theorem Balanced.push {f : WireFrame} {lease : Reservation} {resources : Resources}
    (hb : a.Balanced limits others slots)
    (hr : a.resources.outbound (f.payload.length + handshakeOverhead) = some (lease, resources)) :
    Balanced limits others slots
      { a with resources, output := a.output ++ [{ f with reservation := some lease }] } := by
  obtain ⟨rfl, hh⟩ := hb.holds.reserve hr
  refine ⟨hb.queue, fun g hg => ?_, hb.writer, hb.admission, ?_⟩
  · rcases List.mem_append.mp hg with hg | hg
    · exact hb.output g hg
    · obtain rfl := List.mem_singleton.mp hg
      rfl
  · refine hh.of_eq ?_
    simp only [owed, totalSize_append, totalSize_cons, totalSize_nil, WireFrame.size]
    omega

theorem Balanced.clear (hb : a.Balanced limits others slots) :
    Balanced limits others slots
      { a with output := [], resources := Session.releaseAll a.resources a.output } := by
  refine ⟨hb.queue, fun f hf => (List.not_mem_nil hf).elim, hb.writer, hb.admission,
    .releaseAll hb.output (hb.holds.of_eq ?_)⟩
  simp only [owed, totalSize_nil]
  omega

theorem Balanced.start {w : FrameWriter} (hb : a.Balanced limits (others + amount) slots)
    (hidle : a.writer.bytes = []) (hlen : w.bytes.length = amount) (hpos : w.bytes ≠ [])
    (hw : w.reservation = some ⟨amount⟩) :
    Balanced limits others slots { a with writer := w } := by
  refine ⟨hb.queue, hb.output, by rw [if_neg hpos, hw, hlen], hb.admission, hb.holds.of_eq ?_⟩
  simp only [owed, hidle, hlen, List.length_nil]
  omega

theorem Balanced.finish {w : FrameWriter} (hb : a.Balanced limits others slots)
    (hw : w.bytes = [] ∧ w.reservation = none) :
    Balanced limits others slots
      { a with writer := w, resources := a.resources.releaseOutbound a.writer.reservation } := by
  refine ⟨hb.queue, hb.output, by rw [if_pos hw.1]; exact hw.2, hb.admission, ?_⟩
  rw [hb.writer]
  split_ifs with he
  · refine hb.holds.of_eq ?_
    simp only [owed, hw.1, he]
  · refine .release (hb.holds.of_eq ?_)
    simp only [owed, hw.1, List.length_nil]
    omega

end Account

namespace Session

variable {s : Session} {limits : ResourceLimits} {others slots : Nat}

theorem output_pop {f : WireFrame} {s' : Session} (h : s.popOutbound = (some f, s'))
    (hb : s.output.Balanced limits others slots) :
    f.reservation = some ⟨f.size queuedOverhead⟩ ∧
      s'.output.Balanced limits (others + f.size queuedOverhead) slots := by
  rcases nextOutput_cases s with hn | ⟨g, t, hn, ⟨last, outbound, rfl⟩, pre, post, hf, hp, -⟩
  · rw [popOutbound, hn] at h
    cases h
  · rw [popOutbound, hn] at h
    obtain ⟨hg, rfl⟩ := Prod.mk.inj h
    obtain rfl := Option.some.inj hg
    have hl := hb.leased
    have hh := hb.holds
    simp only [output] at hl hh hp ⊢
    simp only [hf, totalSize_append, totalSize_cons] at hh
    rw [hf] at hl
    refine ⟨hl g (by simp), fun f h => hl f ?_, hh.of_eq ?_⟩
    · simp only [hp, List.mem_append] at h
      rcases h with h | h <;> simp [h]
    · simp only [hp, totalSize_append]
      omega

theorem popOutbound_none (h : s.popOutbound.1 = none) : s.popOutbound.2 = s := by
  rcases nextOutput_cases s with hn | ⟨f, t, hn, -⟩
  · rw [popOutbound, hn]
  · rw [popOutbound, hn] at h
    cases h

theorem output_discard (n : Nat) (hb : s.output.Balanced limits others slots) :
    (s.discard n).output.Balanced limits others slots := by
  induction n generalizing s with
  | zero => exact hb
  | succ n ih =>
    rw [discard]
    split
    case h_1 s' h =>
      have hsame := popOutbound_none (congrArg Prod.fst h)
      rw [h] at hsame
      obtain rfl : s' = s := hsame
      exact hb
    case h_2 f s' h =>
      obtain ⟨hr, hs⟩ := output_pop h hb
      refine ih ⟨hs.leased, ?_⟩
      simp only [output, hr]
      exact .release (hs.holds.of_eq (by simp only [output]; omega))

theorem perform_acts (hs : s.Sound) {call : Call} (hk : call.isStream = true) :
    ∃ edits, Output.Acts s.output edits (s.perform call).output := by
  have hplain : call.plain = true → ∃ edits, Output.Acts s.output edits (s.perform call).output :=
    fun h => (Party.run_effect (p := Party.start s 0) hs h).acts
  cases call with
  | popEvent =>
    simp only [perform, Party.run, Party.start, popEvent]
    split <;> exact ⟨[], .refl⟩
  | popStreamEvent owner =>
    simp only [perform, Party.run, Party.start, popStreamEvent]
    split <;> exact ⟨[], .refl⟩
  | popOutbound => cases hk
  | budget used => cases hk
  | _ => exact hplain rfl

end Session

namespace Connection

section

variable {σ γ : Type} [Cryptography γ] {c c' : Connection σ γ} {limits : ResourceLimits}
  {others slots : Nat}

def queue (c : Connection σ γ) : List WireFrame := (c.session.map Session.outbound).getD []

def account (c : Connection σ γ) : Account :=
  ⟨c.queue, c.handshakeOutput, c.writer, c.admission, c.resources⟩

abbrev Balanced (limits : ResourceLimits) (others slots : Nat) (c : Connection σ γ) : Prop :=
  c.account.Balanced limits others slots

theorem account_some {s : Session} (h : c.session = some s) :
    c.account = ⟨s.outbound, c.handshakeOutput, c.writer, c.admission, c.resources⟩ := by
  simp only [account, queue, h, Option.map_some, Option.getD_some]

theorem Balanced.session (hb : c.Balanced limits others slots) {s : Session}
    (hs : c.session = some s) : (s.setResources c.resources).output.Balanced limits
      (totalSize handshakeOverhead c.handshakeOutput + c.writer.bytes.length + others)
      (c.account.slots + slots) := by
  have h := hb
  rw [Balanced, account_some hs] at h
  refine ⟨h.queue, hb.holds.of_eq ?_⟩
  simp only [Account.owed, account_some hs, Session.output, Session.setResources]
  omega

theorem Balanced.of_session (hb : c.Balanced limits others slots) {s : Session} (amount : Nat)
    (hs : c.session = some s) {t : Session}
    (ht : t.output.Balanced limits
      (totalSize handshakeOverhead c.handshakeOutput + c.writer.bytes.length + others + amount)
      (c.account.slots + slots)) :
    ({ c with session := some t, resources := t.resources } : Connection σ γ).Balanced limits
      (others + amount) slots := by
  have h := hb
  rw [Balanced, account_some hs] at h
  rw [Balanced, account_some rfl]
  refine ⟨ht.leased, h.output, h.writer, h.admission, ht.holds.of_eq ?_⟩
  simp only [Account.owed, Session.output]
  omega

theorem Balanced.onSession (hb : c.Balanced limits others slots) {f : Session → Session}
    (hf : ∀ s ∈ c.session, ∀ others slots,
      (s.setResources c.resources).output.Balanced limits others slots →
      (f (s.setResources c.resources)).output.Balanced limits others slots) :
    (c.onSession f).Balanced limits others slots := by
  cases hs : c.session with
  | none => rwa [onSession_none hs]
  | some s =>
    rw [onSession_some hs]
    exact hb.of_session 0 hs (hf s hs _ _ (hb.session hs))

theorem Balanced.edit (hb : c.Balanced limits others slots) {f : Session → Session}
    (hf : ∀ s ∈ c.session, ∃ edits, Output.Acts (s.setResources c.resources).output edits
      (f (s.setResources c.resources)).output) : (c.onSession f).Balanced limits others slots :=
  hb.onSession fun s hs _ _ h => (hf s hs).elim fun _ ha => h.acts ha

def overhead (c : Connection σ γ) : Nat :=
  if c.session.isSome then queuedOverhead else handshakeOverhead

theorem Balanced.nextFrame_some (hb : c.Balanced limits others slots) {f : WireFrame}
    (h : c.nextFrame = (some f, c')) : f.reservation = some ⟨f.size c.overhead⟩ ∧
      c'.Balanced limits (others + f.size c.overhead) slots := by
  rcases c.nextFrame_cases with ⟨s, hs, hn⟩ | ⟨hs, ⟨-, hn⟩ | ⟨g, rest, ho, hn⟩⟩ <;>
    rw [hn] at h <;> obtain ⟨hf, rfl⟩ := Prod.mk.inj h
  · have hov : c.overhead = queuedOverhead := by simp [overhead, hs]
    have hpop : (s.setResources c.resources).popOutbound =
        (some f, (s.setResources c.resources).popOutbound.2) := Prod.ext hf rfl
    obtain ⟨hr, hout⟩ := Session.output_pop hpop (hb.session hs)
    rw [hov, onSession_some hs]
    exact ⟨hr, hb.of_session _ hs hout⟩
  · cases hf
  · obtain rfl := Option.some.inj hf
    have hov : c.overhead = handshakeOverhead := by simp [overhead, hs]
    have hl := hb.output
    have hh := hb.holds
    simp only [account, ho] at hl hh
    rw [hov]
    refine ⟨hl g List.mem_cons_self, hb.queue, fun f hf => hl f (List.mem_cons_of_mem _ hf),
      hb.writer, hb.admission, hh.of_eq ?_⟩
    simp only [Account.owed, account, queue, totalSize_cons]
    omega

theorem Balanced.nextFrame_none (hb : c.Balanced limits others slots)
    (h : c.nextFrame = (none, c')) : c'.Balanced limits others slots := by
  rcases c.nextFrame_cases with ⟨s, hs, hn⟩ | ⟨hs, ⟨-, hn⟩ | ⟨g, rest, ho, hn⟩⟩ <;>
    rw [hn] at h <;> obtain ⟨hf, rfl⟩ := Prod.mk.inj h
  · refine hb.edit fun t ht => ⟨[], ?_⟩
    obtain rfl := Option.some.inj (hs.symm.trans ht)
    rw [Session.popOutbound_none hf]
    exact .refl
  · exact hb
  · cases hf

theorem Balanced.clearOutput (hb : c.Balanced limits others slots) :
    c.clearOutput.Balanced limits others slots :=
  hb.clear

theorem Balanced.setWriter (hb : c.Balanced limits others slots) {w : FrameWriter}
    (hw : w.bytes = c.writer.bytes ∧ w.reservation = c.writer.reservation ∧ w.bytes ≠ [] ∨
      w.bytes = [] ∧ w.reservation = none) : (c.setWriter w).Balanced limits others slots := by
  rcases hw with ⟨hbytes, hres, hne⟩ | hw
  · have hsome : w.reservation.isSome = true := by
      have hlease : c.writer.reservation = _ := hb.writer
      rw [hres, hlease, if_neg (by rw [hbytes] at hne; exact hne)]
      rfl
    have hkeep : (c.setWriter w).account = { c.account with writer := w } := by
      simp only [Connection.setWriter, hsome, if_true]
      rfl
    rw [Balanced, hkeep]
    refine ⟨hb.queue, hb.output, ?_, hb.admission, hb.holds.of_eq ?_⟩
    · simp only [hres, hbytes]
      exact hb.writer
    · simp only [Account.owed, account, hbytes]
  · have hdrop : (c.setWriter w).account = { c.account with
        writer := w
        resources := c.account.resources.releaseOutbound c.account.writer.reservation } := by
      simp only [Connection.setWriter, hw.2, Option.isSome_none, Bool.false_eq_true, if_false]
      rfl
    rw [Balanced, hdrop]
    exact hb.finish hw

theorem Balanced.release (hb : c.Balanced limits others slots) :
    c.release.Balanced limits others slots := by
  -- the slot first, then the queues, and the frame in the writer last
  have hslot : ({ c with
      socket := none
      traffic := { c.traffic with retired := c.socket.or c.traffic.retired }
      resources := c.resources.releaseConnection c.admission
      admission := none
      handshake := none
      integrity := none } : Connection σ γ).Balanced limits others slots := by
    have hh := hb.holds
    refine ⟨hb.queue, hb.output, hb.writer, fun lease h => (by cases h), ?_⟩
    cases ha : c.admission with
    | none =>
      simp only [Account.slots, account, ha] at hh
      exact hh
    | some lease =>
      obtain rfl := hb.admission lease ha
      have hused : c.resources.connectionsUsed = 1 + slots := by
        simpa [Account.slots, account, ha] using hh.connections
      have hnot : ¬ c.resources.connectionsUsed < 1 := by omega
      refine ⟨hh.policy, hh.outbound, hh.bounded, ?_, ?_⟩
      · simp only [account, Account.slots, Resources.releaseConnection, wrappingSub, hused,
          Option.isSome_none, Bool.false_eq_true, if_false]
        rw [if_pos (by omega)]
        omega
      · simpa [account, Resources.releaseConnection, hnot] using hh.covered
  have hqueue := hslot.clearOutput.onSession (f := fun s => s.discard s.outbound.length)
    fun s _ _ _ h => Session.output_discard _ h
  exact hqueue.setWriter (w := {}) (.inr ⟨rfl, rfl⟩)

theorem Balanced.close (hb : c.Balanced limits others slots) (failure : Option Failure)
    (response : Option ErrorCode) :
    (c.onSession fun s => s.close failure response).Balanced limits others slots :=
  hb.edit fun _ _ => (Session.close_effect _ failure response).acts

theorem Balanced.abort (hb : c.Balanced limits others slots) (d : Disposition) :
    (c.abort d).Balanced limits others slots := by
  have hc : (c.conclude d).Balanced limits others slots := by
    unfold conclude
    split_ifs
    · exact hb.close _ _
    · exact hb
    · exact hb
  unfold Connection.abort
  split_ifs
  · exact hb
  · exact hc.release

theorem Balanced.fail (hb : c.Balanced limits others slots) (d : Disposition) (now : Instant) :
    (c.fail d now).Balanced limits others slots := by
  have hf := c.fail_failed d now
  have hclear : c.clearOutput.Balanced limits others slots := hb.clearOutput
  generalize c.fail d now = c' at hf
  cases hf with
  | aborted => exact hb.abort _
  | shut => exact Balanced.close (by exact hclear) _ _
  | silent => exact hclear
  | answered safe session frame room => exact Account.Balanced.push hclear room

theorem Balanced.sent (hb : c.Balanced limits others slots) (kind : FrameType) (id : UInt32) :
    (c.onSession (·.sent kind id)).Balanced limits others slots :=
  hb.edit fun _ _ => (Session.sent_effect _ kind id).acts

theorem Balanced.written (hb : c.Balanced limits others slots) (now : Instant) :
    (c.written now).2.Balanced limits others slots := by
  have hw := c.written_written now
  generalize (c.written now).2 = c' at hw
  cases hw with
  | unknown => exact hb
  | unsent => exact Balanced.abort (by exact hb) _
  | rejected => exact Balanced.fail (by exact hb) _ now
  | sealed => exact Balanced.sent (by exact hb) _ _
  | plain => exact Balanced.sent (by exact hb) _ _
  | sent => exact Balanced.sent (by exact hb) _ _

theorem Balanced.settle (hb : c.Balanced limits others slots) (now : Instant) :
    (c.settle now).Balanced limits others slots := by
  unfold Connection.settle
  split_ifs
  · exact hb.release
  · exact hb
  · exact hb

theorem Balanced.deliver {ι : Type} [Identity ι] (hb : c.Balanced limits others slots)
    (f : WireFrame) (now : Instant) (registry : Registry) (identity : ι) (crypto : γ) :
    (c.deliver f now registry identity crypto).1.Balanced limits others slots := by
  have hd := c.deliver_delivered f now registry identity crypto
  generalize (c.deliver f now registry identity crypto).1 = c' at hd
  cases hd with
  | unkeyed => exact hb
  | answered handshake received room => exact Account.Balanced.push hb room
  | crowded => exact Balanced.abort (by exact hb) _
  | verified => exact hb
  | rejected => exact Balanced.fail (by exact hb) _ now
  | forged => exact Balanced.abort (by exact hb) _
  | taken =>
    refine Balanced.settle (Balanced.edit (by exact hb) fun s _ => ?_) now
    exact (Session.receive_metered _ _ registry now).effect.acts

theorem Balanced.dropFrame {f : WireFrame} {amount : Nat}
    (hb : c.Balanced limits (others + amount) slots) (hf : f.reservation = some ⟨amount⟩) :
    (c.dropFrame f).Balanced limits others slots := by
  have hacc : (c.dropFrame f).account = { c.account with
      resources := c.account.resources.releaseOutbound (some ⟨amount⟩) } := by
    rw [← hf]
    rfl
  rw [Balanced, hacc]
  exact hb.drop

theorem Sound.mode (hc : c.Sound) (live : c.socket.isSome) :
    c.session.isSome = c.integrity.isSome := by
  cases hh : c.handshake with
  | none => rw [(hc.live live hh).1, (hc.live live hh).2]
  | some h =>
    obtain ⟨hs, hi⟩ := hc.apart (isSome_of_eq hh)
    rw [hs, hi]
    rfl

def owed (c : Connection σ γ) : Nat := c.account.owed

theorem Gone.owed (h : c.Gone) : c.owed = 0 ∧ c.account.slots = 0 := by
  have hq : c.queue = [] := by
    cases hs : c.session with
    | none => simp [Connection.queue, hs]
    | some s => simp [Connection.queue, hs, h.queue s hs]
  simp [Connection.owed, Account.owed, Account.slots, Connection.account, hq, h.output, h.writer,
    h.admission]

end

variable {σ γ ι : Type} [Socket σ] [Cryptography γ] [Identity ι] {c c' : Connection σ γ}
  {limits : ResourceLimits} {others slots : Nat}

theorem Balanced.move (hc : c.Sound) (hb : c.Balanced limits others slots) (h : Move ι c c') :
    c'.Balanced limits others slots := by
  cases h with
  | tick live now => exact hb.edit fun _ _ => (Session.tick_effect _ now).acts
  | idle live empty => exact hb.nextFrame_none empty
  | drained live free empty closing => exact (hb.nextFrame_none empty).release
  | @admitted c₁ _ f crypto live free next start =>
    obtain ⟨hr, hn⟩ := hb.nextFrame_some next
    have hmode := hc.mode live
    obtain ⟨_, _, _, rfl⟩ := nextFrame_eq next
    cases start with
    | @started integrity frame phase hlive idle shape lease same mode =>
      have hsize : (FrameWriter.serialize frame).length = f.size c.overhead := by
        rw [FrameWriter.serialize_length shape, ← frame.payload_length, same.2, WireFrame.size,
          overhead, hmode]
        rcases mode with ⟨rfl, hi, -⟩ | ⟨rfl, i, i', hi, -⟩ <;> simp only at hi <;>
          simp only [hi, Option.isSome_none, Option.isSome_some, Bool.false_eq_true, if_true,
            if_false, headerBytes, FrameProtection.overhead, integrityTagBytes, queuedOverhead,
            handshakeOverhead] <;> omega
      exact Account.Balanced.start (w := { c.writer with
        reservation := f.reservation, bytes := FrameWriter.serialize frame, offset := 0 })
        (by exact hn) (by exact idle) hsize (FrameWriter.serialize_ne_nil frame) hr
  | @refused c₁ c₂ f crypto d live free next start =>
    obtain ⟨hr, hn⟩ := hb.nextFrame_some next
    cases start with
    | unsealed => exact Balanced.abort (Balanced.dropFrame (by exact hn) hr) _
    | unstarted lease => exact Balanced.abort (Balanced.dropFrame (by exact hn) (lease.trans hr)) _
  | @flushed socket socket' writer live busy flush =>
    have hp := FrameWriter.pollFlush_polled (s := socket) hc.writer.1 hc.writer.2
    rw [flush] at hp
    cases hp
    refine Balanced.setWriter (by exact hb) (.inl ⟨rfl, rfl, ?_⟩)
    simpa [FrameWriter.isBusy] using busy
  | @broken socket socket' writer e live busy flush =>
    have hp := FrameWriter.pollFlush_polled (s := socket) hc.writer.1 hc.writer.2
    rw [flush] at hp
    cases hp
    exact Balanced.abort (Balanced.setWriter (by exact hb) (.inr ⟨rfl, rfl⟩)) _
  | @written socket socket' writer now live busy flush =>
    have hp := FrameWriter.pollFlush_polled (s := socket) hc.writer.1 hc.writer.2
    rw [flush] at hp
    cases hp
    exact Balanced.written (Balanced.setWriter (by exact hb) (.inr ⟨rfl, rfl⟩)) now
  | establish =>
    rcases c.establish_cases with he | ⟨h, e, h', hh, ht, he⟩ <;> rw [he]
    · exact hb
    · have hs := (hc.apart (isSome_of_eq hh)).1
      have hempty : c.queue = [] := by simp [queue, hs]
      have hacc : c.account = ⟨[], c.handshakeOutput, c.writer, c.admission, c.resources⟩ := by
        simp only [account, hempty]
      rw [Balanced, hacc] at hb
      exact hb
  | waiting => exact hb
  | faulted now => exact Balanced.fail (by exact hb) _ now
  | ended =>
    simp only [Connection.ended]
    split_ifs
    · exact (Balanced.close (by exact hb) none none).release
    · exact Balanced.abort (by exact hb) _
  | delivered now registry identity crypto =>
    exact Balanced.deliver (by exact hb) _ now registry identity crypto
  | finish => exact (hb.close none none).release
  | expired => exact hb.abort _

theorem Balanced.moves (hc : c.Sound) (hb : c.Balanced limits others slots) (h : Moves ι c c') :
    c'.Balanced limits others slots := by
  induction h with
  | refl => exact hb
  | tail hm h ih => exact ih.move (hc.moves hm) h

def Op.Own (op : Op σ γ ι) : Prop :=
  op.Offered ∧ ∀ socket outbound connections, op ≠ .world socket outbound connections

theorem Balanced.run (hc : c.Sound) (hb : c.Balanced limits others slots) {op : Op σ γ ι}
    (ho : op.Own) : (c.run op).Balanced limits others slots := by
  have hrequest : ∀ {call : Call}, call.isStream = true →
      (c.request call).Balanced limits others slots := fun hk =>
    hb.edit fun s hs => Session.perform_acts ((hc.session s hs).withResources _) hk
  cases op with
  | poll now registry identity crypto => exact hb.moves hc (poll_moves c now registry identity crypto)
  | close => exact hb.abort _
  | request call => exact hrequest ho.1
  | popEvent =>
    rcases c.popEvent_eq with ⟨events, he⟩ | he <;> rw [Connection.run, he]
    · exact hb
    · exact hrequest rfl
  | setHandle handle => exact hb
  | world socket outbound connections => exact absurd rfl (ho.2 socket outbound connections)

end Connection

/-- Connections that share their counters. The copy of the counters a connection holds is
brought up to date before it acts. -/
structure Pool (σ γ : Type) [Cryptography γ] where
  resources : Resources
  connections : List (Connection σ γ)

namespace Pool

section

variable {σ γ : Type} [Cryptography γ] {limits : ResourceLimits} {resources : Resources}
  {c c' : Connection σ γ} {before after : List (Connection σ γ)}

def share (resources : Resources) (c : Connection σ γ) : Connection σ γ := { c with resources }

structure Balanced (limits : ResourceLimits) (p : Pool σ γ) : Prop where
  sound : ∀ c ∈ p.connections, c.Sound
  owned : ∀ c ∈ p.connections, c.account.Owned
  holds : p.resources.Holds limits (p.connections.map Connection.owed).sum
    (p.connections.map fun c => c.account.slots).sum

theorem Balanced.shared (hp : Balanced limits ⟨resources, before ++ c :: after⟩) :
    (share resources c).Sound :=
  (hp.sound c (by simp)).record resources c.handle c.events c.traffic

theorem Balanced.focus (hp : Balanced limits ⟨resources, before ++ c :: after⟩) :
    (share resources c).Balanced limits ((before ++ after).map Connection.owed).sum
      ((before ++ after).map fun c => c.account.slots).sum := by
  have ho := hp.owned c (by simp)
  have hown : (share resources c).account.owed = c.owed := rfl
  have hslot : (share resources c).account.slots = c.account.slots := rfl
  refine ⟨ho.queue, ho.output, ho.writer, ho.admission, hp.holds.cast ?_ ?_⟩
  all_goals
    simp only [hown, hslot, List.map_append, List.map_cons, List.sum_append, List.sum_cons]
    omega

theorem Balanced.replace (hp : Balanced limits ⟨resources, before ++ c :: after⟩) (hs : c'.Sound)
    (hb : c'.Balanced limits ((before ++ after).map Connection.owed).sum
      ((before ++ after).map fun c => c.account.slots).sum) :
    Balanced limits ⟨c'.resources, before ++ c' :: after⟩ := by
  have hmem : ∀ d ∈ before ++ c' :: after, d = c' ∨ d ∈ before ++ c :: after := by
    intro d hd
    rcases List.mem_append.mp hd with hd | hd
    · exact .inr (by simp [hd])
    · rcases List.mem_cons.mp hd with hd | hd
      · exact .inl hd
      · exact .inr (by simp [hd])
  have hown : c'.account.owed = c'.owed := rfl
  refine ⟨fun d hd => ?_, fun d hd => ?_, hb.holds.cast ?_ ?_⟩
  · rcases hmem d hd with rfl | hd
    · exact hs
    · exact hp.sound d hd
  · rcases hmem d hd with rfl | hd
    · exact hb.owned
    · exact hp.owned d hd
  all_goals
    simp only [hown, List.map_append, List.map_cons, List.sum_append, List.sum_cons]
    omega

theorem Balanced.remove (hp : Balanced limits ⟨resources, before ++ c :: after⟩)
    (hb : c'.Balanced limits ((before ++ after).map Connection.owed).sum
      ((before ++ after).map fun c => c.account.slots).sum) (hg : c'.Gone) :
    Balanced limits ⟨c'.resources, before ++ after⟩ := by
  have hmem : ∀ d ∈ before ++ after, d ∈ before ++ c :: after := by
    intro d hd
    rcases List.mem_append.mp hd with hd | hd <;> simp [hd]
  obtain ⟨howed, hslots⟩ := hg.owed
  have hown : c'.account.owed = c'.owed := rfl
  refine ⟨fun d hd => hp.sound d (hmem d hd), fun d hd => hp.owned d (hmem d hd),
    hb.holds.cast ?_ ?_⟩
  · rw [hown, howed, Nat.zero_add]
  · rw [hslots, Nat.zero_add]

variable {ι : Type} [Identity ι] {socket : σ} {options : Options} {config : TransportConfig}
  {now : Instant} {identity : ι} {crypto crypto' : γ} {handle : ConnectionHandle}
  {resources' : Resources}

theorem Balanced.begun {p : Pool σ γ} (hp : Balanced limits p)
    (h : Connection.beginShared socket options config now identity crypto p.resources handle =
      (.ok c, resources', crypto')) : Balanced limits ⟨resources', p.connections ++ [c]⟩ := by
  have hs := Connection.Sound.begin h
  obtain ⟨r₁, admission, hello, deadline, handshake, frame, hadm, hroom, hb, rfl⟩ :=
    Connection.beginShared_ok h
  obtain ⟨rfl, h₁⟩ := hp.holds.admission hadm
  obtain ⟨rfl, h₂⟩ := h₁.reserve hroom
  have hlen : frame.payload.length = 100 := by
    obtain ⟨pub, ephemeral, nonce, c, -, -, rfl, hf⟩ := Handshake.begin_ok hb
    obtain ⟨f, hf', -, -, -, hpay, -⟩ := rawFrame_eq .hello
      (Hello.encode ⟨pub.signingPublicKey, ephemeral.publicKey, nonce⟩) rfl (by simp [maxPayloadBytes])
    rw [hf'] at hf
    obtain rfl := Except.ok.inj hf
    simp [hpay]
  have howned : (Connection.account (σ := σ) (γ := γ) {
      resources := resources', admission := some ⟨1⟩, handle, socket := some socket
      handshake := some handshake
      handshakeOutput := [{ frame with reservation := some ⟨112⟩ }]
      deadline, timeout := config.handshakeTimeout }).Owned :=
    ⟨fun _ hw => absurd hw List.not_mem_nil, by simp [Leased, Connection.account, WireFrame.size, handshakeOverhead, hlen], rfl,
      fun lease hl => (Option.mem_some_iff.mp hl).symm⟩
  refine ⟨fun d hd => ?_, fun d hd => ?_, h₂.cast ?_ ?_⟩
  · rcases List.mem_append.mp hd with hd | hd
    · exact hp.sound d hd
    · exact List.mem_singleton.mp hd ▸ hs
  · rcases List.mem_append.mp hd with hd | hd
    · exact hp.owned d hd
    · exact List.mem_singleton.mp hd ▸ howned
  · simp [Connection.owed, Connection.account, Account.owed, Connection.queue, WireFrame.size,
      handshakeOverhead, hlen]
  · simp [Connection.account, Account.slots]

theorem beginShared_error {d : Disposition} {resources : Resources}
    (h : Connection.beginShared (σ := σ) socket options config now identity crypto resources handle =
      (.error d, resources', crypto')) : resources' = resources := by
  unfold Connection.beginShared at h
  split at h
  case h_1 => exact (congrArg (·.2.1) h).symm
  case h_2 admission r₁ hadm =>
    have hback := Resources.connection_release hadm
    split at h
    case h_1 => exact (congrArg (·.2.1) h).symm.trans hback
    case h_2 hello r₂ hroom =>
      have hboth : (r₂.releaseOutbound (some hello)).releaseConnection (some admission) =
          resources := (Resources.outbound_release hroom).symm ▸ hback
      split at h
      case h_1 => exact (congrArg (·.2.1) h).symm.trans hboth
      case h_2 =>
        split at h
        case h_1 => exact (congrArg (·.2.1) h).symm.trans hboth
        case h_2 => cases congrArg (·.1) h

theorem Balanced.new (limits : ResourceLimits) : Balanced (σ := σ) (γ := γ) limits ⟨{ limits }, []⟩ :=
  ⟨fun _ h => absurd h List.not_mem_nil, fun _ h => absurd h List.not_mem_nil,
    rfl, rfl, Nat.zero_le _, rfl, rfl⟩

end

section

variable {σ γ ι : Type} [Socket σ] [Cryptography γ] [Identity ι] {limits : ResourceLimits}
  {p p' : Pool σ γ}

variable (ι) in
/-- One event of a process: a connection begins or is refused, one of them is called, the
network changes a socket, or one is dropped. -/
inductive Step : Pool σ γ → Pool σ γ → Prop
  | begun {p : Pool σ γ} {socket : σ} {options : Options} {config : TransportConfig}
      {now : Instant} {identity : ι} {crypto crypto' : γ} {handle : ConnectionHandle}
      {resources : Resources} {c : Connection σ γ}
      (h : Connection.beginShared socket options config now identity crypto p.resources handle =
        (.ok c, resources, crypto')) : Step p ⟨resources, p.connections ++ [c]⟩
  | refused {p : Pool σ γ} {socket : σ} {options : Options} {config : TransportConfig}
      {now : Instant} {identity : ι} {crypto crypto' : γ} {handle : ConnectionHandle}
      {resources : Resources} {d : Disposition}
      (h : Connection.beginShared socket options config now identity crypto p.resources handle =
        (.error d, resources, crypto')) : Step p ⟨resources, p.connections⟩
  | operated (resources : Resources) (before after : List (Connection σ γ)) (c : Connection σ γ)
      (op : Connection.Op σ γ ι) (own : op.Own) :
      Step ⟨resources, before ++ c :: after⟩
        ⟨((share resources c).run op).resources, before ++ (share resources c).run op :: after⟩
  | network (resources : Resources) (before after : List (Connection σ γ)) (c : Connection σ γ)
      (socket : σ) :
      Step ⟨resources, before ++ c :: after⟩
        ⟨resources, before ++
          { share resources c with socket := c.socket.map fun _ => socket } :: after⟩
  | dropped (resources : Resources) (before after : List (Connection σ γ)) (c : Connection σ γ) :
      Step ⟨resources, before ++ c :: after⟩
        ⟨(share resources c).release.resources, before ++ after⟩

theorem Balanced.step (hp : Balanced limits p) (h : Step ι p p') : Balanced limits p' := by
  cases h with
  | begun h => exact hp.begun h
  | refused h => exact beginShared_error h ▸ hp
  | operated resources before after c op own =>
    exact hp.replace (hp.shared.run own.1) (hp.focus.run hp.shared own)
  | network resources before after c socket =>
    exact hp.replace ((hp.sound c (by simp)).world socket resources) hp.focus
  | dropped resources before after c => exact hp.remove hp.focus.release (Connection.release_gone _)

theorem Balanced.reached (h : Relation.ReflTransGen (Step ι) ⟨{ limits }, []⟩ p) :
    Balanced limits p := by
  induction h with
  | refl => exact .new limits
  | tail _ h ih => exact ih.step h

/-- The output counter is the sum of the serialized sizes of all frames waiting in a session,
waiting as handshake output or in a writer; it stays within the limit and no release takes more
than it holds. -/
theorem outbound_budget_exact (h : Relation.ReflTransGen (Step ι) ⟨{ limits }, []⟩ p) :
    p.resources.outboundUsed = (p.connections.map Connection.owed).sum ∧
      p.resources.outboundUsed ≤ limits.outboundBytes ∧ p.resources.underflowed = false ∧
      ((∀ c ∈ p.connections, c.socket = none) → p.resources.outboundUsed = 0) := by
  have hp := Balanced.reached h
  have hsum := hp.holds.outbound
  refine ⟨hsum, hsum ▸ hp.holds.bounded, hp.holds.covered, fun hn => ?_⟩
  rw [hsum]
  refine List.sum_eq_zero fun owed ho => ?_
  obtain ⟨c, hc, rfl⟩ := List.mem_map.mp ho
  exact ((hp.sound c hc).gone (hn c hc)).owed.1

end

/-- A second connection beside the sample one. -/
def sampleSecond : Except Disposition (Connection Script MockCrypto) × Resources × MockCrypto :=
  Connection.beginShared {} ⟨.acceptor, .unpinned⟩ ⟨⟨2, 2, maxFrameBytes, maxPayloadBytes⟩, 10⟩ 0
    (MockIdentity.mk (.replicate 32 1)) { entropy := .replicate 32 1 : MockCrypto }
    Connection.sampleBegin.2.1 ⟨⟨1⟩⟩

def stuck (c : Connection Script MockCrypto) : Connection Script MockCrypto :=
  { share sampleSecond.2.1 c with socket := c.socket.map fun _ => ⟨[], true⟩ }

/-- Two connections, one with its HELLO in the writer and one with its HELLO still queued. -/
theorem outbound_budget_exact_hello : ∃ c d, Connection.sampleBegin.1 = .ok c ∧
    sampleSecond.1 = .ok d ∧
    let c' := (stuck c).run (Connection.samplePoll 0)
    c'.writer.isBusy = true ∧ c'.resources.outboundUsed = c'.owed + d.owed ∧
      c'.owed = 112 ∧ d.owed = 112 := by
  obtain ⟨c, hb, hf⟩ := Connection.sample_after [] (fun c =>
    let c' := (stuck c).run (Connection.samplePoll 0)
    (c'.writer.isBusy, c'.owed)) (a := (true, 112)) (by decide +kernel)
  obtain ⟨hw, hf⟩ := Prod.mk.inj hf
  have hsecond : sampleSecond.1.toOption.map Connection.owed = some 112 := by decide +kernel
  obtain ⟨d, hd, howed⟩ := Option.map_eq_some_iff.mp hsecond
  have hd := Outcome.toOption_some.mp hd
  refine ⟨c, d, hb, hd, hw, ?_, hf, howed⟩
  have hbegun : Step MockIdentity ⟨{ limits := ⟨2, 2, maxFrameBytes, maxPayloadBytes⟩ }, []⟩
      ⟨Connection.sampleBegin.2.1, [c]⟩ := .begun (Prod.ext hb rfl)
  have hagain : Step MockIdentity ⟨Connection.sampleBegin.2.1, [c]⟩ ⟨sampleSecond.2.1, [c, d]⟩ :=
    .begun (Prod.ext hd rfl)
  have hstuck := Step.network (ι := MockIdentity) sampleSecond.2.1 [] [d] c ⟨[], true⟩
  have hpoll := Step.operated sampleSecond.2.1 [] [d] (stuck c) (Connection.samplePoll 0)
    ⟨trivial, nofun⟩
  have h := (outbound_budget_exact ((((ReflTransGen.single hbegun).tail hagain).tail hstuck).tail
    hpoll)).1
  have hshare : share sampleSecond.2.1 (stuck c) = stuck c := rfl
  simpa [hshare] using h

end Pool

end TalkSphere
