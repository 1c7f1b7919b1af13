import Mathlib.Data.List.Nodup
import TalkSphere.StreamIds

/-! The stream numbering against the unbounded record of every id it has used. Two marks and
two counters stand for two growing lists, also beyond the last id that 32 bits hold. -/

namespace TalkSphere

inductive IdCall
  | allocate
  | accept (id : UInt32)
deriving DecidableEq, Repr

/-- Calls with their answers, oldest first. -/
abbrev IdLog := List (IdCall × Except IdError UInt32)

namespace IdLog

def allocated (log : IdLog) : List UInt32 :=
  log.filterMap fun
    | (.allocate, .ok id) => some id
    | _ => none

def accepted (log : IdLog) : List UInt32 :=
  log.filterMap fun
    | (.accept _, .ok id) => some id
    | _ => none

end IdLog

namespace StreamIds

def perform (ids : StreamIds) : IdCall → Except IdError UInt32 × StreamIds
  | .allocate => ids.allocate
  | .accept id =>
    let (answer, ids') := ids.accept id
    (answer.map fun _ => id, ids')

def run (role : ConnectionRole) (calls : List IdCall) : IdLog × StreamIds :=
  calls.foldl (fun (log, ids) call =>
    let (answer, ids') := ids.perform call
    (log ++ [(call, answer)], ids')) ([], new role)

def nth (odd : Bool) (k : Nat) : Nat := (if odd then 1 else 2) + 2 * k

/-! A direction after `used` of its ids. -/

/-- The greatest id and the following one say how many ids of a parity were used. -/
structure Counts (odd : Bool) (used : List UInt32) (greatest : UInt32) (next : Option UInt32) :
    Prop where
  dense : used.map UInt32.toNat = (List.range used.length).map (nth odd)
  last : greatest.toNat = if used = [] then 0 else nth odd (used.length - 1)
  next : ∀ id, next = some id ↔ id.toNat = nth odd used.length

theorem counts_nil {odd : Bool} : Counts odd [] 0 (some (if odd then 1 else 2)) := by
  refine ⟨rfl, rfl, fun id => ?_⟩
  rw [Option.some_inj, ← UInt32.toNat_inj]
  cases odd <;> simp [nth, eq_comm]

theorem checkedAddTwo_iff {id next : UInt32} :
    checkedAddTwo id = some next ↔ next.toNat = id.toNat + 2 := by
  refine ⟨checkedAddTwo_eq_some, fun h => ?_⟩
  have hlt : id.toNat + 2 < 2 ^ 32 := h ▸ next.toNat_lt
  rw [checkedAddTwo, if_pos hlt, Option.some_inj, ← UInt32.toNat_inj, h, UInt32.toNat_add]
  exact Nat.mod_eq_of_lt hlt

section

variable {odd : Bool} {used : List UInt32} {greatest id : UInt32} {next : Option UInt32}

theorem Counts.snoc (h : Counts odd used greatest next) (hid : next = some id) :
    Counts odd (used ++ [id]) id (checkedAddTwo id) := by
  have hn := (h.next id).mp hid
  constructor
  · rw [List.map_append, h.dense, List.length_append, List.length_singleton, List.range_succ,
      List.map_append, List.map_singleton, List.map_singleton, hn]
  · simp [hn]
  · intro j
    rw [checkedAddTwo_iff, hn, List.length_append, List.length_singleton]
    simp only [nth]
    omega

theorem Counts.mem_iff (h : Counts odd used greatest next) :
    id ∈ used ↔ ofParity odd id = true ∧ id ≤ greatest := by
  have hmem : id ∈ used ↔ ∃ k < used.length, nth odd k = id.toNat := by
    rw [← List.mem_map_of_injective (fun _ _ => UInt32.toNat_inj.mp), h.dense]
    simp
  rw [hmem, ofParity_iff, UInt32.le_iff_toNat_le, h.last]
  by_cases he : used = []
  · simp only [he, List.length_nil, if_true]
    omega
  · have hpos := List.length_pos_iff.mpr he
    rw [if_neg he]
    constructor
    · rintro ⟨k, hk, hn⟩
      cases odd <;> simp only [nth, Bool.toNat_true, Bool.toNat_false, if_true] at hn ⊢ <;> grind
    · rintro ⟨⟨h0, hparity⟩, hle⟩
      refine ⟨(id.toNat - 1) / 2, ?_, ?_⟩ <;> cases odd <;> simp [nth] at * <;> omega

end

/-! The whole numbering. -/

/-- The numbering after the logged calls of an endpoint that allocates the given parity. -/
structure Reflects (odd : Bool) (log : IdLog) (ids : StreamIds) : Prop where
  parity : ids.localOdd = odd
  locals : Counts odd log.allocated ids.greatestLocal ids.nextLocal
  remotes : Counts (!odd) log.accepted ids.greatestRemote ids.nextRemote

section

variable {odd : Bool} {log : IdLog} {ids : StreamIds}

theorem allocate_iff (id : UInt32) : ids.allocate.1 = .ok id ↔ ids.nextLocal = some id := by
  cases h : ids.nextLocal <;> simp [allocate, h]

theorem accept_iff (id : UInt32) : (ids.accept id).1 = .ok () ↔ ids.nextRemote = some id := by
  by_cases h : ids.nextRemote = some id <;> simp [accept, h]

theorem perform_error {call : IdCall} {e : IdError} (h : (ids.perform call).1 = .error e) :
    (ids.perform call).2 = ids := by
  cases call with
  | allocate =>
    cases hn : ids.nextLocal with
    | none => simp [perform, allocate, hn]
    | some id => simp [perform, allocate, hn] at h
  | accept id =>
    by_cases hn : ids.nextRemote = some id
    · simp [perform, accept, hn, Except.map] at h
    · simp [perform, accept, hn]

theorem reflects_new (role : ConnectionRole) : Reflects (role == .initiator) [] (new role) := by
  refine ⟨rfl, counts_nil, ?_⟩
  cases role <;> exact counts_nil

theorem Reflects.perform (h : Reflects odd log ids) (call : IdCall) :
    Reflects odd (log ++ [(call, (ids.perform call).1)]) (ids.perform call).2 := by
  cases hr : (ids.perform call).1 with
  | error e =>
    rw [perform_error hr]
    have hallocated : IdLog.allocated (log ++ [(call, .error e)]) = log.allocated := by
      simp [IdLog.allocated]
    have haccepted : IdLog.accepted (log ++ [(call, .error e)]) = log.accepted := by
      simp [IdLog.accepted]
    exact ⟨h.parity, hallocated ▸ h.locals, haccepted ▸ h.remotes⟩
  | ok id =>
    cases call with
    | allocate =>
      have hn := (allocate_iff id).mp hr
      have hallocated : IdLog.allocated (log ++ [(.allocate, .ok id)]) = log.allocated ++ [id] := by
        simp [IdLog.allocated]
      have haccepted : IdLog.accepted (log ++ [(.allocate, .ok id)]) = log.accepted := by
        simp [IdLog.accepted]
      have hids : (ids.perform .allocate).2 =
          { ids with nextLocal := checkedAddTwo id, greatestLocal := id } := by
        simp [StreamIds.perform, allocate, hn]
      rw [hids]
      exact ⟨h.parity, hallocated ▸ h.locals.snoc hn, haccepted ▸ h.remotes⟩
    | accept asked =>
      have hn : ids.nextRemote = some asked := by
        by_contra hne
        simp [StreamIds.perform, accept, hne, Except.map] at hr
      obtain rfl : asked = id := by simpa [StreamIds.perform, accept, hn, Except.map] using hr
      have hallocated : IdLog.allocated (log ++ [(.accept asked, .ok asked)]) = log.allocated := by
        simp [IdLog.allocated]
      have haccepted : IdLog.accepted (log ++ [(.accept asked, .ok asked)]) =
          log.accepted ++ [asked] := by
        simp [IdLog.accepted]
      have hids : (ids.perform (.accept asked)).2 =
          { ids with nextRemote := checkedAddTwo asked, greatestRemote := asked } := by
        simp [StreamIds.perform, accept, hn]
      rw [hids]
      exact ⟨h.parity, hallocated ▸ h.locals, haccepted ▸ h.remotes.snoc hn⟩

theorem reflects_run (role : ConnectionRole) (calls : List IdCall) :
    Reflects (role == .initiator) (run role calls).1 (run role calls).2 := by
  induction calls using List.reverseRecOn with
  | nil => exact reflects_new role
  | append_singleton calls call ih =>
    simp only [run, List.foldl_append, List.foldl_cons, List.foldl_nil] at ih ⊢
    exact ih.perform call

theorem Reflects.wasCreated_iff (h : Reflects odd log ids) (id : UInt32) :
    ids.wasCreated id = true ↔ id ∈ log.allocated ∨ id ∈ log.accepted := by
  rw [StreamIds.wasCreated_iff, h.locals.mem_iff, h.remotes.mem_iff, h.parity]

theorem Reflects.disjoint (h : Reflects odd log ids) : log.allocated.Disjoint log.accepted := by
  intro id hl hr
  have hodd := (h.locals.mem_iff.mp hl).1
  have heven := (h.remotes.mem_iff.mp hr).1
  rw [ofParity_not, hodd] at heven
  exact absurd heven.2 (by simp)

end

structure ExactHistory (odd : Bool) (log : IdLog) (ids : StreamIds) : Prop where
  created : ∀ id, ids.wasCreated id = true ↔ id ∈ log.allocated ∨ id ∈ log.accepted
  allocated : log.allocated.map UInt32.toNat = (List.range log.allocated.length).map (nth odd)
  accepted : log.accepted.map UInt32.toNat = (List.range log.accepted.length).map (nth !odd)
  allocate : ∀ id, ids.allocate.1 = .ok id ↔ id.toNat = nth odd log.allocated.length
  accept : ∀ id, (ids.accept id).1 = .ok () ↔ id.toNat = nth (!odd) log.accepted.length
  disjoint : log.allocated.Disjoint log.accepted
  rejected : ∀ call e, (ids.perform call).1 = .error e → (ids.perform call).2 = ids

theorem run_exact (role : ConnectionRole) (calls : List IdCall) :
    ExactHistory (role == .initiator) (run role calls).1 (run role calls).2 := by
  have h := reflects_run role calls
  constructor
  case created => exact h.wasCreated_iff
  case allocated => exact h.locals.dense
  case accepted => exact h.remotes.dense
  case allocate => exact fun id => (allocate_iff id).trans (h.locals.next id)
  case accept => exact fun id => (accept_iff id).trans (h.remotes.next id)
  case disjoint => exact h.disjoint
  case rejected => exact fun call e he => perform_error he

end StreamIds

end TalkSphere
