import TalkSphere.Document

/-! The language of the bounded scan: exactly the JSON texts whose trees keep within the
limits. The scan follows `Json.value` byte for byte, and stops where a budget is used up. -/

namespace TalkSphere.Board

open Json (Tree depths memberDepths nodesOf memberNodes)
open Outcome (bind_ok)

/-! What the limits say about a tree. -/

structure Within (limits : Limits) (t : Tree) : Prop where
  keys : ∀ ms, Tree.object ms ∈ t.subtrees → (ms.map Prod.fst).Nodup
  arrays : ∀ items, Tree.array items ∈ t.subtrees → items.length ≤ limits.arrayElements
  strings : ∀ text ∈ t.strings, text.utf8ByteSize ≤ limits.stringBytes
  depth : t.depth ≤ limits.depth
  nodes : t.nodes ≤ limits.nodes

def Own (limits : Limits) : Tree → Prop
  | .object ms => (ms.map Prod.fst).Nodup ∧ ∀ m ∈ ms, m.1.utf8ByteSize ≤ limits.stringBytes
  | .array items => items.length ≤ limits.arrayElements
  | .string text => text.utf8ByteSize ≤ limits.stringBytes
  | _ => True

def Fits (limits : Limits) (t : Tree) : Prop := ∀ x ∈ t.subtrees, Own limits x

instance (limits : Limits) : DecidablePred (Own limits)
  | .object _ => inferInstanceAs (Decidable (_ ∧ _))
  | .array _ => inferInstanceAs (Decidable (_ ≤ _))
  | .string _ => inferInstanceAs (Decidable (_ ≤ _))
  | .null | .bool _ | .number _ => inferInstanceAs (Decidable True)

instance (limits : Limits) : DecidablePred (Fits limits) := fun t =>
  inferInstanceAs (Decidable (∀ x ∈ t.subtrees, Own limits x))

section

variable {limits : Limits}

theorem mem_subtreesOf {items : List Tree} {t : Tree} :
    t ∈ Json.subtreesOf items ↔ ∃ x ∈ items, t ∈ x.subtrees := by
  induction items with
  | nil => simp [Json.subtreesOf]
  | cons x items ih => simp [Json.subtreesOf, ih]

theorem mem_memberSubtrees {ms : List (String × Tree)} {t : Tree} :
    t ∈ Json.memberSubtrees ms ↔ ∃ m ∈ ms, t ∈ m.2.subtrees := by
  induction ms with
  | nil => simp [Json.memberSubtrees]
  | cons m ms ih => simp [Json.memberSubtrees, ih]

theorem fits_array {items : List Tree} : Fits limits (.array items) ↔
    items.length ≤ limits.arrayElements ∧ ∀ t ∈ items, Fits limits t := by
  simp only [Fits, Tree.subtrees, List.forall_mem_cons, mem_subtreesOf, Own]
  exact and_congr_right fun _ => ⟨fun h t ht x hx => h x ⟨t, ht, hx⟩,
    fun h x ⟨t, ht, hx⟩ => h t ht x hx⟩

theorem fits_object {ms : List (String × Tree)} : Fits limits (.object ms) ↔
    ((ms.map Prod.fst).Nodup ∧ ∀ m ∈ ms, m.1.utf8ByteSize ≤ limits.stringBytes) ∧
      ∀ m ∈ ms, Fits limits m.2 := by
  simp only [Fits, Tree.subtrees, List.forall_mem_cons, mem_memberSubtrees, Own]
  exact and_congr_right fun _ => ⟨fun h m hm x hx => h x ⟨m, hm, hx⟩,
    fun h x ⟨m, hm, hx⟩ => h m hm x hx⟩

theorem fits_string {text : String} :
    Fits limits (.string text) ↔ text.utf8ByteSize ≤ limits.stringBytes := by
  simp [Fits, Tree.subtrees, Own]

theorem within_iff {t : Tree} : Within limits t ↔
    Fits limits t ∧ t.depth ≤ limits.depth ∧ t.nodes ≤ limits.nodes := by
  constructor
  · intro h
    have hkey : ∀ {ms m}, .object ms ∈ t.subtrees → m ∈ ms →
        m.1.utf8ByteSize ≤ limits.stringBytes :=
      fun hx hm => h.strings _ (List.mem_flatMap.mpr ⟨_, hx, List.mem_map_of_mem hm⟩)
    have hstring : ∀ {text}, .string text ∈ t.subtrees →
        text.utf8ByteSize ≤ limits.stringBytes :=
      fun hx => h.strings _ (List.mem_flatMap.mpr ⟨_, hx, List.mem_singleton_self _⟩)
    refine ⟨fun x hx => ?_, h.depth, h.nodes⟩
    cases x with
    | object ms => exact ⟨h.keys ms hx, fun m hm => hkey hx hm⟩
    | array items => exact h.arrays items hx
    | string text => exact hstring hx
    | null | bool | number => trivial
  · rintro ⟨h, hd, hn⟩
    refine ⟨fun ms hm => (h _ hm).1, fun items hm => h _ hm, fun text ht => ?_, hd, hn⟩
    obtain ⟨x, hx, ht⟩ := List.mem_flatMap.mp ht
    cases x with
    | string own => exact List.mem_singleton.mp ht ▸ h _ hx
    | object ms =>
      obtain ⟨m, hm, rfl⟩ := List.mem_map.mp ht
      exact (h _ hx).2 m hm
    | null | bool | number | array => cases ht

end

/-! The parts of the scan, in terms of the bytes from the position on. -/

namespace Scan

variable {s : Scan}

def InRange (s : Scan) : Prop := s.pos ≤ s.bytes.length

def moved (s : Scan) (k : Nat) (rest : List UInt8) : Scan :=
  { s with pos := s.bytes.length - rest.length, nodes := s.nodes + k }

@[simp] theorem moved_bytes (s : Scan) (k : Nat) (rest : List UInt8) :
    (s.moved k rest).bytes = s.bytes := rfl

@[simp] theorem moved_limits (s : Scan) (k : Nat) (rest : List UInt8) :
    (s.moved k rest).limits = s.limits := rfl

@[simp] theorem moved_nodes (s : Scan) (k : Nat) (rest : List UInt8) :
    (s.moved k rest).nodes = s.nodes + k := rfl

@[simp] theorem moved_moved (s : Scan) (k k' : Nat) (rest rest' : List UInt8) :
    (s.moved k rest).moved k' rest' = s.moved (k + k') rest' := by
  simp only [moved, Nat.add_assoc]

theorem moved_inRange (s : Scan) (k : Nat) (rest : List UInt8) : (s.moved k rest).InRange :=
  Nat.sub_le _ _

theorem rest_suffix (s : Scan) : s.rest <:+ s.bytes := List.drop_suffix _ _

theorem moved_rest {rest : List UInt8} (h : rest <:+ s.bytes) (k : Nat) :
    (s.moved k rest).rest = rest :=
  (List.suffix_iff_eq_drop.mp h).symm

theorem InRange.length_rest (h : s.InRange) : s.pos + s.rest.length = s.bytes.length := by
  rw [rest, List.length_drop]
  exact Nat.add_sub_of_le h

theorem InRange.moved_self (h : s.InRange) : s.moved 0 s.rest = s := by
  have hlen := h.length_rest
  simp only [moved, Nat.add_zero, ← hlen, Nat.add_sub_cancel]

theorem get_eq (s : Scan) : s.bytes[s.pos]? = s.rest.head? := by
  rw [rest, List.head?_drop]

theorem skipWhile_eq (p : UInt8 → Bool) (l : List UInt8) (pos : Nat) :
    skipWhile p l pos = pos + (l.takeWhile p).length := by
  induction l generalizing pos with
  | nil => rfl
  | cons b l ih =>
    rw [skipWhile, List.takeWhile_cons]
    split
    · rw [ih, List.length_cons]
      omega
    · rfl

theorem InRange.skipWhile_eq (h : s.InRange) (p : UInt8 → Bool) :
    { s with pos := skipWhile p s.rest s.pos } = s.moved 0 (s.rest.dropWhile p) := by
  have hlen := h.length_rest
  have hsplit := congrArg List.length (List.takeWhile_append_dropWhile (p := p) (l := s.rest))
  rw [List.length_append] at hsplit
  have hpos : s.pos + (s.rest.takeWhile p).length =
      s.bytes.length - (s.rest.dropWhile p).length := by omega
  rw [Scan.skipWhile_eq, hpos]
  rfl

theorem InRange.space_eq (h : s.InRange) : s.space = s.moved 0 (Json.skip s.rest) :=
  h.skipWhile_eq Json.isSpace

theorem InRange.next_eq (h : s.InRange) {b : UInt8} {rest : List UInt8} (hr : s.rest = b :: rest) :
    { s with pos := s.pos + 1 } = s.moved 0 rest := by
  have hlen := h.length_rest
  rw [hr, List.length_cons] at hlen
  have hpos : s.pos + 1 = s.bytes.length - rest.length := by omega
  rw [hpos]
  rfl

theorem InRange.eat_eq (h : s.InRange) (b : UInt8) : s.eat b =
    match Json.expect b s.rest with
    | some rest => .ok (s.moved 0 rest)
    | none => .error (.refused .invalid) := by
  rw [eat, get_eq]
  cases hr : s.rest with
  | nil => rfl
  | cons c rest =>
    by_cases hc : c = b
    · simp [Json.expect, hc, h.next_eq hr]
    · simp [Json.expect, hc]

theorem InRange.node_eq (h : s.InRange) : s.node =
    if s.nodes + 1 ≤ s.limits.nodes then .ok (s.moved 1 s.rest) else .error (.refused .limit) := by
  have hs : { s with nodes := s.nodes + 1 } = s.moved 1 s.rest := by
    have hself := h.moved_self
    rw [moved, Scan.mk.injEq] at hself
    simp only [moved, hself.2.1]
  by_cases hn : s.nodes + 1 ≤ s.limits.nodes
  · simp only [node, if_pos hn, if_neg (Nat.not_lt.mpr hn), hs, gt_iff_lt]
  · simp only [node, if_neg hn, if_pos (Nat.not_le.mp hn), gt_iff_lt]

theorem stringEnd_eq (l : List UInt8) (pos : Nat) :
    stringEnd l pos = (Json.closing l).map (pos + ·) := by
  have later : ∀ (o : Option Nat) (pos k : Nat),
      o.map (pos + k + ·) = (o.map (· + k)).map (pos + ·) := by
    intro o pos k
    cases o with
    | none => rfl
    | some n =>
      simp only [Option.map_some, Option.some.injEq]
      omega
  fun_induction stringEnd l pos with
  | case1 => rfl
  | case2 => rw [Json.closing.eq_def]; rfl
  | case3 => rfl
  | case4 pos hne b rest ih => rw [ih, later]; rfl
  | case5 b rest pos hq hb ih =>
    rw [ih, later, Json.closing.eq_def (b :: rest)]
    simp only [if_neg hq, if_neg hb]

theorem InRange.advanced_eq (h : s.InRange) {n : Nat} (hn : n ≤ s.rest.length) :
    { s with pos := s.pos + n } = s.moved 0 (s.rest.drop n) := by
  have hlen := h.length_rest
  have hpos : s.pos + n = s.bytes.length - (s.rest.drop n).length := by
    rw [List.length_drop]
    omega
  rw [hpos]
  rfl

theorem InRange.slice_eq (h : s.InRange) {token rest : List UInt8} (hr : s.rest = token ++ rest) :
    (s.moved 0 rest).slice s.pos = .ok token := by
  have hlen := h.length_rest
  have htoken : token.length ≤ s.rest.length := by simp [hr]
  have hmoved := h.advanced_eq htoken
  rw [hr, List.drop_left] at hmoved
  rw [slice, ← hmoved, Codec.slice?_eq (Nat.le_add_right _ _)
    (show s.pos + token.length ≤ s.bytes.length by omega)]
  change Except.ok (s.rest.take (s.pos + token.length - s.pos)) = .ok token
  rw [hr, Nat.add_sub_cancel_left, List.take_left]

theorem closing_le {l : List UInt8} {n : Nat} (h : Json.closing l = some n) : n ≤ l.length := by
  fun_induction Json.closing l generalizing n with
  | case1 => cases h
  | case2 rest =>
    obtain rfl := Option.some.inj h
    exact Nat.succ_pos _
  | case3 => cases h
  | case4 hne b rest ih =>
    obtain ⟨m, hm, rfl⟩ := Option.map_eq_some_iff.mp h
    exact Nat.add_le_add_right (ih hm) 2
  | case5 b rest hq hb ih =>
    obtain ⟨m, hm, rfl⟩ := Option.map_eq_some_iff.mp h
    exact Nat.add_le_add_right (ih hm) 1

theorem InRange.string_eq (h : s.InRange) {body : List UInt8} (hr : s.rest = Json.quote :: body) :
    s.string = match Json.string body with
      | none => .error (.refused .invalid)
      | some (text, rest) =>
        if text.utf8ByteSize ≤ s.limits.stringBytes then .ok (text, s.moved 0 rest)
        else .error (.refused .limit) := by
  have hbody : s.bytes.drop (s.pos + 1) = body := by
    rw [← List.drop_drop, ← rest, hr, List.drop_one, List.tail_cons]
  simp only [string, hbody, stringEnd_eq, Json.string]
  cases hc : Json.closing body with
  | none => rfl
  | some n =>
    have hmoved : { s with pos := s.pos + 1 + n } = s.moved 0 (body.drop n) := by
      have hn : n + 1 ≤ s.rest.length := by
        rw [hr, List.length_cons]
        exact Nat.succ_le_succ (closing_le hc)
      rw [show s.pos + 1 + n = s.pos + (n + 1) by omega, h.advanced_eq hn, hr, List.drop_succ_cons]
    have hslice : (s.moved 0 (body.drop n)).slice s.pos = .ok (Json.quote :: body.take n) :=
      h.slice_eq (by rw [hr, List.cons_append, List.take_append_drop])
    simp only [Option.map_some, hmoved, hslice, Option.bind_some, bind, Except.bind]
    cases Json.decodeString (Json.quote :: body.take n) with
    | none => rfl
    | some text =>
      by_cases ht : text.utf8ByteSize ≤ s.limits.stringBytes
      · simp [ht, Nat.not_lt.mpr ht]
      · simp [ht, Nat.not_le.mp ht]

theorem InRange.scalar_eq (h : s.InRange) : s.scalar = match Json.scalar s.rest with
    | none => .error (.refused .invalid)
    | some (_, rest) => .ok (s.moved 0 rest) := by
  have hsplit : s.rest = s.rest.takeWhile (!Json.isStop ·) ++ s.rest.dropWhile (!Json.isStop ·) :=
    List.takeWhile_append_dropWhile.symm
  simp only [scalar, h.skipWhile_eq, h.slice_eq hsplit, Json.scalar, bind, Except.bind]
  rw [Scan.skipWhile_eq]
  generalize s.rest.takeWhile (!Json.isStop ·) = token
  cases token with
  | nil => rw [if_pos (show s.pos = s.pos + ([] : List UInt8).length from rfl)]; rfl
  | cons b token =>
    rw [if_neg (by simp only [List.length_cons]; omega)]
    cases Json.decodeScalar (b :: token) <;> rfl

theorem InRange.counted_eq (h : s.InRange) : s.space.node =
    if s.nodes + 1 ≤ s.limits.nodes then .ok (s.moved 1 (Json.skip s.rest))
    else .error (.refused .limit) := by
  have hsuffix := (Json.skip_suffix s.rest).trans s.rest_suffix
  have hnode := (moved_inRange s 0 (Json.skip s.rest)).node_eq
  simpa only [h.space_eq, moved_nodes, Nat.add_zero, moved_limits, moved_rest hsuffix, moved_moved,
    Nat.zero_add] using hnode

theorem InRange.key_eq (h : s.InRange) (keys : List String) : s.key keys =
    if s.nodes + 1 ≤ s.limits.nodes then
      match Json.expect Json.quote (Json.skip s.rest) with
      | none => .error (.refused .invalid)
      | some body =>
        match Json.string body with
        | none => .error (.refused .invalid)
        | some (text, behind) =>
          if text.utf8ByteSize ≤ s.limits.stringBytes then
            if text ∈ keys then .error (.refused .invalid)
            else
              match Json.expect Json.colon (Json.skip behind) with
              | none => .error (.refused .invalid)
              | some rest => .ok (text :: keys, s.moved 1 rest)
          else .error (.refused .limit)
    else .error (.refused .limit) := by
  have hsuffix := (Json.skip_suffix s.rest).trans s.rest_suffix
  rw [key, h.counted_eq]
  by_cases hn : s.nodes + 1 ≤ s.limits.nodes
  · simp only [if_pos hn, bind, Except.bind, get_eq, moved_rest hsuffix]
    cases hr : Json.skip s.rest with
    | nil => rfl
    | cons b body =>
      by_cases hb : b = Json.quote
      · subst hb
        have hrest : (s.moved 1 (Json.quote :: body)).rest = Json.quote :: body :=
          moved_rest (hr ▸ hsuffix) 1
        simp only [List.head?_cons, ne_eq, not_true_eq_false, if_false, Json.expect_iff.mpr rfl,
          (moved_inRange s 1 (Json.quote :: body)).string_eq hrest, moved_limits, moved_moved,
          Nat.add_zero]
        cases htext : Json.string body with
        | none => rfl
        | some found =>
          obtain ⟨text, behind⟩ := found
          have hbehind : behind <:+ s.bytes :=
            (Json.string_suffix htext).trans ((List.suffix_cons _ _).trans (hr ▸ hsuffix))
          by_cases hsize : text.utf8ByteSize ≤ s.limits.stringBytes
          · by_cases hk : text ∈ keys
            · simp [hsize, hk]
            · have hcolon := (moved_inRange s 1 (Json.skip behind)).eat_eq Json.colon
              rw [moved_rest ((Json.skip_suffix behind).trans hbehind)] at hcolon
              simp only [hsize, hk, if_true, if_false, (moved_inRange s 1 behind).space_eq,
                moved_rest hbehind, moved_moved, Nat.add_zero, hcolon]
              cases Json.expect Json.colon (Json.skip behind) <;> rfl
          · simp [hsize]
      · simp [hb, Json.expect]
  · simp only [if_neg hn]
    rfl

def after (n depth : Nat) (object : Bool) (keys : List String) (count : Nat) (s : Scan) :
    Except Stop Scan :=
  let s := s.space
  match s.bytes[s.pos]? with
  | none => .error (.refused .invalid)
  | some b =>
    if b = endOf object then .ok { s with pos := s.pos + 1 }
    else if b = Json.comma then items n depth object keys count { s with pos := s.pos + 1 }
    else .error (.refused .invalid)

section

variable {n depth count : Nat} {object : Bool} {keys : List String}

theorem InRange.after_eq (h : s.InRange) : s.after n depth object keys count =
    match Json.expect (endOf object) (Json.skip s.rest) with
    | some rest => .ok (s.moved 0 rest)
    | none =>
      match Json.expect Json.comma (Json.skip s.rest) with
      | some rest => items n depth object keys count (s.moved 0 rest)
      | none => .error (.refused .invalid) := by
  have hrest := moved_rest ((Json.skip_suffix s.rest).trans s.rest_suffix) 0
  simp only [after, h.space_eq, get_eq, hrest]
  cases hr : Json.skip s.rest with
  | nil => rfl
  | cons b rest =>
    rw [hr] at hrest
    simp only [List.head?_cons, (moved_inRange s 0 (b :: rest)).next_eq hrest, moved_moved,
      Json.expect]
    by_cases hb : b = endOf object
    · simp only [if_pos hb]
    · by_cases hc : b = Json.comma
      · simp only [if_neg hb, if_pos hc]
      · simp only [if_neg hb, if_neg hc]

theorem items_array : items (n + 1) depth false keys count s =
    if count + 1 ≤ s.limits.arrayElements then
      value n (depth + 1) s >>= after n depth false keys (count + 1)
    else .error (.refused .limit) := by
  by_cases hc : count + 1 ≤ s.limits.arrayElements
  · simp only [items, Bool.false_eq_true, if_false, if_pos hc, if_neg (Nat.not_lt.mpr hc), gt_iff_lt]
    rfl
  · simp only [items, Bool.false_eq_true, if_false, if_neg hc, if_pos (Nat.not_le.mp hc), gt_iff_lt]
    rfl

theorem items_object : items (n + 1) depth true keys count s =
    s.key keys >>= fun r => value n (depth + 1) r.2 >>= after n depth true r.1 count := by
  simp only [items, if_true, bind, Except.bind]
  cases s.key keys <;> rfl

theorem InRange.value_eq (h : s.InRange) : value (n + 1) depth s =
    if s.nodes + 1 ≤ s.limits.nodes then
      match Json.skip s.rest with
      | [] => .error (.refused .invalid)
      | b :: rest =>
        if b = Json.openBrace ∨ b = Json.openBracket then
          if s.limits.depth ≤ depth then .error (.refused .limit)
          else
            match Json.expect (endOf (b == Json.openBrace)) (Json.skip rest) with
            | some rest => .ok (s.moved 1 rest)
            | none => items n depth (b == Json.openBrace) [] 0 (s.moved 1 (Json.skip rest))
        else if b = Json.quote then
          match Json.string rest with
          | none => .error (.refused .invalid)
          | some (text, rest) =>
            if text.utf8ByteSize ≤ s.limits.stringBytes then .ok (s.moved 1 rest)
            else .error (.refused .limit)
        else
          match Json.scalar (b :: rest) with
          | none => .error (.refused .invalid)
          | some (_, rest) => .ok (s.moved 1 rest)
    else .error (.refused .limit) := by
  have hsuffix := (Json.skip_suffix s.rest).trans s.rest_suffix
  rw [value, h.counted_eq]
  by_cases hn : s.nodes + 1 ≤ s.limits.nodes
  · simp only [if_pos hn, bind, Except.bind, get_eq, moved_rest hsuffix]
    cases hr : Json.skip s.rest with
    | nil => rfl
    | cons b rest =>
      have hin := moved_inRange s 1 (b :: rest)
      have hrest : (s.moved 1 (b :: rest)).rest = b :: rest := moved_rest (hr ▸ hsuffix) 1
      have hinner : rest <:+ s.bytes := (List.suffix_cons b rest).trans (hr ▸ hsuffix)
      simp only [List.head?_cons]
      by_cases hopen : b = Json.openBrace ∨ b = Json.openBracket
      · simp only [if_pos hopen]
        by_cases hd : s.limits.depth ≤ depth
        · simp only [ge_iff_le, moved_limits, if_pos hd]
        · have hd' : ¬ depth ≥ (s.moved 1 (b :: rest)).limits.depth := hd
          have hat : Codec.at? (s.moved 1 (b :: rest)).bytes (s.moved 1 (b :: rest)).pos = some b := by
            rw [Codec.at?, get_eq, hrest, List.head?_cons]
          have hskip : (s.moved 1 (Json.skip rest)).rest = Json.skip rest :=
            moved_rest ((Json.skip_suffix rest).trans hinner) 1
          simp only [if_neg hd', if_neg hd, hat, hin.next_eq hrest, moved_moved, Nat.add_zero,
            (moved_inRange s 1 rest).space_eq, moved_rest hinner, hskip]
          cases hc : Json.skip rest with
          | nil => rfl
          | cons c tail =>
            rw [hc] at hskip
            by_cases he : c = endOf (b == Json.openBrace)
            · simp only [List.head?_cons, he, if_true, Json.expect,
                (moved_inRange s 1 (endOf (b == Json.openBrace) :: tail)).next_eq (he ▸ hskip),
                moved_moved, Nat.add_zero]
            · simp only [List.head?_cons, Option.some.injEq, he, if_false, Json.expect]
      · simp only [if_neg hopen]
        by_cases hq : b = Json.quote
        · subst hq
          simp only [if_true, hin.string_eq hrest, moved_limits, moved_moved, Nat.add_zero]
          cases Json.string rest with
          | none => rfl
          | some found =>
            by_cases hsize : found.1.utf8ByteSize ≤ s.limits.stringBytes <;> simp [hsize]
        · simp only [if_neg hq, hin.scalar_eq, hrest, moved_moved, Nat.add_zero]
  · simp only [if_neg hn]
    rfl

end

/-! The budgets left at a state of the scan. -/

structure Admits (s : Scan) (depth : Nat) (t : Tree) : Prop where
  depth : depth + t.depth ≤ s.limits.depth
  nodes : s.nodes + t.nodes ≤ s.limits.nodes
  fits : Fits s.limits t

/-- For the rest of an array, after `count` elements. -/
structure AdmitsElements (s : Scan) (depth count : Nat) (ts : List Tree) : Prop where
  depth : depth + 1 + depths ts ≤ s.limits.depth
  nodes : s.nodes + nodesOf ts ≤ s.limits.nodes
  count : count + ts.length ≤ s.limits.arrayElements
  fits : ∀ t ∈ ts, Fits s.limits t

/-- For the rest of an object, after members with the given keys. -/
structure AdmitsMembers (s : Scan) (depth : Nat) (keys : List String)
    (ms : List (String × Tree)) : Prop where
  depth : depth + 1 + memberDepths ms ≤ s.limits.depth
  nodes : s.nodes + memberNodes ms ≤ s.limits.nodes
  fresh : ∀ m ∈ ms, m.1 ∉ keys
  distinct : (ms.map Prod.fst).Nodup
  strings : ∀ m ∈ ms, m.1.utf8ByteSize ≤ s.limits.stringBytes
  fits : ∀ m ∈ ms, Fits s.limits m.2

theorem admitsElements_cons {depth count : Nat} {t : Tree} {ts : List Tree} (rest : List UInt8) :
    AdmitsElements s depth count (t :: ts) ↔ Admits s (depth + 1) t ∧
      AdmitsElements (s.moved t.nodes rest) depth (count + 1) ts := by
  constructor
  · rintro ⟨hd, hn, hc, hf⟩
    simp only [depths, nodesOf, List.length_cons] at hd hn hc
    refine ⟨⟨by omega, by omega, hf t List.mem_cons_self⟩, ⟨?_, ?_, ?_, ?_⟩⟩
    · simp only [moved_limits]
      omega
    · simp only [moved_nodes, moved_limits]
      omega
    · simp only [moved_limits]
      omega
    · exact fun x hx => hf x (List.mem_cons_of_mem t hx)
  · rintro ⟨⟨hd, hn, hf⟩, ⟨hd', hn', hc, hf'⟩⟩
    simp only [moved_limits, moved_nodes] at hd' hn' hc hf'
    refine ⟨?_, ?_, ?_, List.forall_mem_cons.mpr ⟨hf, hf'⟩⟩
    · simp only [depths]
      omega
    · simp only [nodesOf]
      omega
    · simp only [List.length_cons]
      omega

theorem admitsMembers_cons {depth : Nat} {keys : List String} {key : String} {t : Tree}
    {ms : List (String × Tree)} (behind rest : List UInt8) :
    AdmitsMembers s depth keys ((key, t) :: ms) ↔
      (key ∉ keys ∧ key.utf8ByteSize ≤ s.limits.stringBytes) ∧
        Admits (s.moved 1 behind) (depth + 1) t ∧
        AdmitsMembers (s.moved (1 + t.nodes) rest) depth (key :: keys) ms := by
  constructor
  · rintro ⟨hd, hn, hfresh, hdistinct, hstrings, hf⟩
    simp only [memberDepths, memberNodes, List.map_cons, List.nodup_cons] at hd hn hdistinct
    obtain ⟨hkey, hfresh⟩ := List.forall_mem_cons.mp hfresh
    obtain ⟨hsize, hstrings⟩ := List.forall_mem_cons.mp hstrings
    obtain ⟨hfit, hf⟩ := List.forall_mem_cons.mp hf
    refine ⟨⟨hkey, hsize⟩, ⟨?_, ?_, hfit⟩, ⟨?_, ?_, ?_, hdistinct.2, hstrings, hf⟩⟩
    · simp only [moved_limits]
      omega
    · simp only [moved_nodes, moved_limits]
      omega
    · simp only [moved_limits]
      omega
    · simp only [moved_nodes, moved_limits]
      omega
    · intro m hm hmem
      rcases List.mem_cons.mp hmem with he | hmem
      · exact hdistinct.1 (he ▸ List.mem_map_of_mem hm)
      · exact hfresh m hm hmem
  · rintro ⟨⟨hkey, hsize⟩, ⟨hd, hn, hfit⟩, ⟨hd', hn', hfresh, hdistinct, hstrings, hf⟩⟩
    simp only [moved_limits, moved_nodes] at hd hn hd' hn' hstrings hf hfit
    refine ⟨?_, ?_, ?_, ?_, List.forall_mem_cons.mpr ⟨hsize, hstrings⟩,
      List.forall_mem_cons.mpr ⟨hfit, hf⟩⟩
    · simp only [memberDepths]
      omega
    · simp only [memberNodes]
      omega
    · exact List.forall_mem_cons.mpr
        ⟨hkey, fun m hm hmem => hfresh m hm (List.mem_cons_of_mem key hmem)⟩
    · refine List.nodup_cons.mpr ⟨fun hmem => ?_, hdistinct⟩
      obtain ⟨m, hm, he⟩ := List.mem_map.mp hmem
      exact hfresh m hm (he ▸ List.mem_cons_self)

theorem admitsElements_nil {depth count : Nat} : AdmitsElements s depth count [] ↔
    depth + 1 ≤ s.limits.depth ∧ s.nodes ≤ s.limits.nodes ∧ count ≤ s.limits.arrayElements :=
  ⟨fun h => ⟨h.depth, h.nodes, h.count⟩, fun h => ⟨h.1, h.2.1, h.2.2, nofun⟩⟩

theorem admitsMembers_nil {depth : Nat} {keys : List String} : AdmitsMembers s depth keys [] ↔
    depth + 1 ≤ s.limits.depth ∧ s.nodes ≤ s.limits.nodes :=
  ⟨fun h => ⟨h.depth, h.nodes⟩, fun h => ⟨h.1, h.2, nofun, List.nodup_nil, nofun, nofun⟩⟩

/-- With fuel `n` the scan reads what the parser reads with it, where the budgets allow it. -/
structure Follows (n : Nat) : Prop where
  value : ∀ {depth s s'}, s.InRange → depth ≤ s.limits.depth →
    (value n depth s = .ok s' ↔ ∃ t rest, Json.value n s.rest = some (t, rest) ∧
      Admits s depth t ∧ s' = s.moved t.nodes rest)
  elements : ∀ {depth keys count s s'}, s.InRange → depth < s.limits.depth →
    (items n depth false keys count s = .ok s' ↔ ∃ ts rest, Json.elements n s.rest = some (ts, rest) ∧
      AdmitsElements s depth count ts ∧ s' = s.moved (nodesOf ts) rest)
  members : ∀ {depth keys count s s'}, s.InRange → depth < s.limits.depth →
    (items n depth true keys count s = .ok s' ↔ ∃ ms rest, Json.members n s.rest = some (ms, rest) ∧
      AdmitsMembers s depth keys ms ∧ s' = s.moved (memberNodes ms) rest)

section

variable {n depth count : Nat} {keys : List String} {s' : Scan}

theorem after_ok {object : Bool} {k : Nat} {behind : List UInt8} (hb : behind <:+ s.bytes) :
    (s.moved k behind).after n depth object keys count = .ok s' ↔
      (∃ rest, Json.expect (endOf object) (Json.skip behind) = some rest ∧ s' = s.moved k rest) ∨
      Json.expect (endOf object) (Json.skip behind) = none ∧ ∃ next,
        Json.expect Json.comma (Json.skip behind) = some next ∧ (s.moved k next).rest = next ∧
          items n depth object keys count (s.moved k next) = .ok s' := by
  rw [(moved_inRange s k behind).after_eq, moved_rest hb]
  cases Json.expect (endOf object) (Json.skip behind) with
  | some rest => simp [eq_comm]
  | none =>
    cases hc : Json.expect Json.comma (Json.skip behind) with
    | none => simp
    | some next =>
      have hnext : next <:+ s.bytes :=
        (Json.expect_suffix hc).1.trans ((Json.skip_suffix behind).trans hb)
      simp [moved_rest hnext]

theorem Follows.elements_succ (h : Follows n) (hs : s.InRange) (hd : depth < s.limits.depth) :
    items (n + 1) depth false keys count s = .ok s' ↔
      ∃ ts rest, Json.elements (n + 1) s.rest = some (ts, rest) ∧
        AdmitsElements s depth count ts ∧ s' = s.moved (nodesOf ts) rest := by
  rw [items_array]
  constructor
  · intro hi
    split_ifs at hi with hc
    obtain ⟨s₁, hv, ha⟩ := bind_ok.mp hi
    obtain ⟨t, behind, ht, hadmits, rfl⟩ := (h.value hs hd).mp hv
    have hb := (Json.value_suffix ht).1.trans s.rest_suffix
    rcases (after_ok hb).mp ha with ⟨rest, he, rfl⟩ | ⟨he, next, hn, hnext, hi⟩
    · refine ⟨[t], rest, Json.elements_succ.mpr ⟨t, behind, ht, .inl ⟨he, rfl⟩⟩, ?_, by
        simp [nodesOf]⟩
      exact (admitsElements_cons rest).mpr
        ⟨hadmits, admitsElements_nil.mpr ⟨hd, hadmits.nodes, hc⟩⟩
    · obtain ⟨ts, rest, hts, hall, rfl⟩ := (h.elements (moved_inRange _ _ _) hd).mp hi
      rw [hnext] at hts
      exact ⟨t :: ts, rest, Json.elements_succ.mpr ⟨t, behind, ht, .inr ⟨he, next, ts, hn, hts, rfl⟩⟩,
        (admitsElements_cons next).mpr ⟨hadmits, hall⟩, by simp [nodesOf]⟩
  · rintro ⟨ts, rest, hts, hall, rfl⟩
    obtain ⟨t, behind, ht, hend⟩ := Json.elements_succ.mp hts
    have hb := (Json.value_suffix ht).1.trans s.rest_suffix
    obtain ⟨items, rfl⟩ : ∃ items, ts = t :: items := by
      rcases hend with ⟨-, rfl⟩ | ⟨-, _, items, -, -, rfl⟩
      exacts [⟨[], rfl⟩, ⟨items, rfl⟩]
    have hadmits := ((admitsElements_cons rest).mp hall).1
    have hcount : count + 1 ≤ s.limits.arrayElements := by
      have hlen := hall.count
      rw [List.length_cons] at hlen
      omega
    rw [if_pos hcount]
    refine bind_ok.mpr ⟨_, (h.value hs hd).mpr ⟨t, behind, ht, hadmits, rfl⟩, (after_ok hb).mpr ?_⟩
    rcases hend with ⟨he, hts⟩ | ⟨he, next, more, hn, hmore, hts⟩ <;>
      obtain rfl := (List.cons.inj hts).2
    · exact .inl ⟨rest, he, by simp [nodesOf]⟩
    · have hnext : (s.moved t.nodes next).rest = next :=
        moved_rest ((Json.expect_suffix hn).1.trans ((Json.skip_suffix behind).trans hb)) _
      refine .inr ⟨he, next, hn, hnext, (h.elements (moved_inRange _ _ _) hd).mpr
        ⟨items, rest, by rwa [hnext], ((admitsElements_cons next).mp hall).2, by simp [nodesOf]⟩⟩

theorem key_ok {s' : Scan} {keys' : List String} (hs : s.InRange) :
    s.key keys = .ok (keys', s') ↔ ∃ body text colons inner,
      Json.expect Json.quote (Json.skip s.rest) = some body ∧
      Json.string body = some (text, colons) ∧
      Json.expect Json.colon (Json.skip colons) = some inner ∧
      (text ∉ keys ∧ text.utf8ByteSize ≤ s.limits.stringBytes ∧ s.nodes + 1 ≤ s.limits.nodes) ∧
      keys' = text :: keys ∧ s' = s.moved 1 inner ∧ inner <:+ s.bytes := by
  rw [hs.key_eq]
  by_cases hn : s.nodes + 1 ≤ s.limits.nodes
  · rw [if_pos hn]
    cases hbody : Json.expect Json.quote (Json.skip s.rest) with
    | none => simp
    | some body =>
      cases htext : Json.string body with
      | none => simp [htext]
      | some found =>
        obtain ⟨text, colons⟩ := found
        by_cases hsize : text.utf8ByteSize ≤ s.limits.stringBytes
        · by_cases hk : text ∈ keys
          · simp [htext, hsize, hk]
          · cases hcolon : Json.expect Json.colon (Json.skip colons) with
            | none => simp [htext, hsize, hk, hcolon]
            | some inner =>
              have hinner := (Json.member_suffix hbody htext hcolon).1.trans s.rest_suffix
              simp [htext, hsize, hk, hcolon, hn, hinner, eq_comm]
        · simp [htext, hsize]
  · simp [hn]

theorem Follows.members_succ (h : Follows n) (hs : s.InRange) (hd : depth < s.limits.depth) :
    items (n + 1) depth true keys count s = .ok s' ↔
      ∃ ms rest, Json.members (n + 1) s.rest = some (ms, rest) ∧
        AdmitsMembers s depth keys ms ∧ s' = s.moved (memberNodes ms) rest := by
  rw [items_object]
  constructor
  · intro hi
    obtain ⟨⟨keys', s₁⟩, hk, hi⟩ := bind_ok.mp hi
    obtain ⟨s₂, hv, ha⟩ := bind_ok.mp hi
    obtain ⟨body, key, colons, inner, hbody, htext, hcolon, ⟨hfresh, hsize, hn⟩, rfl, rfl, hinner⟩ :=
      (key_ok hs).mp hk
    have hrest := moved_rest hinner 1
    obtain ⟨t, behind, ht, hadmits, rfl⟩ := (h.value (moved_inRange s 1 inner) hd).mp hv
    rw [hrest] at ht
    rw [moved_moved] at ha
    have hb := (Json.value_suffix ht).1.trans hinner
    rcases (after_ok hb).mp ha with ⟨rest, he, rfl⟩ | ⟨he, next, hc, hnext, hi⟩
    · refine ⟨[(key, t)], rest, Json.members_succ.mpr ⟨body, key, colons, inner, t, behind, hbody,
        htext, hcolon, ht, .inl ⟨he, rfl⟩⟩, ?_, by simp [memberNodes]⟩
      refine (admitsMembers_cons inner rest).mpr ⟨⟨hfresh, hsize⟩, hadmits, admitsMembers_nil.mpr
        ⟨hd, ?_⟩⟩
      simpa [Nat.add_assoc] using hadmits.nodes
    · obtain ⟨ms, rest, hms, hall, rfl⟩ := (h.members (moved_inRange _ _ _) hd).mp hi
      rw [hnext] at hms
      exact ⟨(key, t) :: ms, rest, Json.members_succ.mpr ⟨body, key, colons, inner, t, behind, hbody,
        htext, hcolon, ht, .inr ⟨he, next, ms, hc, hms, rfl⟩⟩,
        (admitsMembers_cons inner next).mpr ⟨⟨hfresh, hsize⟩, hadmits, hall⟩, by simp [memberNodes]⟩
  · rintro ⟨ms, rest, hms, hall, rfl⟩
    obtain ⟨body, key, colons, inner, t, behind, hbody, htext, hcolon, ht, hend⟩ :=
      Json.members_succ.mp hms
    obtain ⟨more, rfl⟩ : ∃ more, ms = (key, t) :: more := by
      rcases hend with ⟨-, rfl⟩ | ⟨-, _, more, -, -, rfl⟩
      exacts [⟨[], rfl⟩, ⟨more, rfl⟩]
    obtain ⟨⟨hfresh, hsize⟩, hadmits, -⟩ := (admitsMembers_cons inner rest).mp hall
    have hn : s.nodes + 1 ≤ s.limits.nodes := by
      have hn := hadmits.nodes
      simp only [moved_nodes, moved_limits] at hn
      omega
    have hinner := (Json.member_suffix hbody htext hcolon).1.trans s.rest_suffix
    have hb := (Json.value_suffix ht).1.trans hinner
    refine bind_ok.mpr ⟨(key :: keys, s.moved 1 inner), (key_ok hs).mpr ⟨body, key, colons, inner,
      hbody, htext, hcolon, ⟨hfresh, hsize, hn⟩, rfl, rfl, hinner⟩, bind_ok.mpr ⟨_,
      (h.value (moved_inRange s 1 inner) hd).mpr ⟨t, behind, by rwa [moved_rest hinner], hadmits, rfl⟩,
      ?_⟩⟩
    rw [moved_moved]
    refine (after_ok hb).mpr ?_
    rcases hend with ⟨he, hms⟩ | ⟨he, next, others, hc, hmore, hms⟩ <;>
      obtain rfl := (List.cons.inj hms).2
    · exact .inl ⟨rest, he, by simp [memberNodes]⟩
    · have hnext : (s.moved (1 + t.nodes) next).rest = next :=
        moved_rest ((Json.expect_suffix hc).1.trans ((Json.skip_suffix behind).trans hb)) _
      refine .inr ⟨he, next, hc, hnext, (h.members (moved_inRange _ _ _) hd).mpr
        ⟨more, rest, by rwa [hnext], ((admitsMembers_cons inner next).mp hall).2.2, by
          simp [memberNodes]⟩⟩

theorem nodes_pos (t : Tree) : 1 ≤ t.nodes := by
  cases t <;> simp [Tree.nodes]

theorem admits_leaf {t : Tree} (hnodes : t.nodes = 1) (hdepth : t.depth = 0)
    (hs : t.subtrees = [t]) (hd : depth ≤ s.limits.depth) (hn : s.nodes + 1 ≤ s.limits.nodes) :
    Admits s depth t ↔ Own s.limits t := by
  constructor
  · exact fun h => h.fits t (hs ▸ List.mem_singleton_self t)
  · intro h
    refine ⟨by omega, by omega, fun x hx => ?_⟩
    rw [hs] at hx
    exact List.mem_singleton.mp hx ▸ h

theorem admits_array {ts : List Tree} (rest : List UInt8) : Admits s depth (.array ts) ↔
    depth < s.limits.depth ∧ AdmitsElements (s.moved 1 rest) depth 0 ts := by
  constructor
  · rintro ⟨hd, hn, hf⟩
    simp only [Tree.depth, Tree.nodes] at hd hn
    obtain ⟨hlen, hall⟩ := fits_array.mp hf
    refine ⟨by omega, ⟨?_, ?_, by simpa using hlen, hall⟩⟩
    · simp only [moved_limits]
      omega
    · simp only [moved_nodes, moved_limits]
      omega
  · rintro ⟨hlt, ⟨hd, hn, hc, hf⟩⟩
    simp only [moved_limits, moved_nodes, Nat.zero_add] at hd hn hc hf
    refine ⟨?_, ?_, fits_array.mpr ⟨hc, hf⟩⟩
    · simp only [Tree.depth]
      omega
    · simp only [Tree.nodes]
      omega

theorem admits_object {ms : List (String × Tree)} (rest : List UInt8) :
    Admits s depth (.object ms) ↔
      depth < s.limits.depth ∧ AdmitsMembers (s.moved 1 rest) depth [] ms := by
  constructor
  · rintro ⟨hd, hn, hf⟩
    simp only [Tree.depth, Tree.nodes] at hd hn
    obtain ⟨⟨hdistinct, hstrings⟩, hall⟩ := fits_object.mp hf
    refine ⟨by omega, ⟨?_, ?_, fun _ _ => List.not_mem_nil, hdistinct, hstrings, hall⟩⟩
    · simp only [moved_limits]
      omega
    · simp only [moved_nodes, moved_limits]
      omega
  · rintro ⟨hlt, ⟨hd, hn, -, hdistinct, hstrings, hf⟩⟩
    simp only [moved_limits, moved_nodes] at hd hn hstrings hf
    refine ⟨?_, ?_, fits_object.mpr ⟨⟨hdistinct, hstrings⟩, hf⟩⟩
    · simp only [Tree.depth]
      omega
    · simp only [Tree.nodes]
      omega

theorem container_ok {α : Type} (make : List α → Tree) (nodes : List α → Nat)
    {admits : List α → Prop} {read : Option (List α × List UInt8)} {found : Option (List UInt8)}
    {inner : Except Stop Scan} {whole : Option (Tree × List UInt8)}
    (hmake : ∀ xs, Admits s depth (make xs) ↔ depth < s.limits.depth ∧ admits xs)
    (hnodes : ∀ xs, (make xs).nodes = 1 + nodes xs) (hnil : depth < s.limits.depth → admits [])
    (hzero : nodes [] = 0)
    (hinner : depth < s.limits.depth → (inner = .ok s' ↔
      ∃ xs rest, read = some (xs, rest) ∧ admits xs ∧ s' = s.moved (1 + nodes xs) rest))
    (hwhole : whole = match found with
      | some rest => some (make [], rest)
      | none => read.map fun r => (make r.1, r.2)) :
    (if s.limits.depth ≤ depth then Except.error (.refused .limit)
      else match found with
        | some rest => .ok (s.moved 1 rest)
        | none => inner) = .ok s' ↔
      ∃ t rest, whole = some (t, rest) ∧ Admits s depth t ∧ s' = s.moved t.nodes rest := by
  subst hwhole
  by_cases hlt : depth < s.limits.depth
  · rw [if_neg (Nat.not_le.mpr hlt)]
    cases found with
    | some rest =>
      constructor
      · intro h
        obtain rfl := Except.ok.inj h
        exact ⟨make [], rest, rfl, (hmake []).mpr ⟨hlt, hnil hlt⟩, by rw [hnodes, hzero]⟩
      · rintro ⟨t, _, he, -, rfl⟩
        obtain ⟨rfl, rfl⟩ := Prod.mk.inj (Option.some.inj he)
        rw [hnodes, hzero]
    | none =>
      refine (hinner hlt).trans ⟨?_, ?_⟩
      · rintro ⟨xs, rest, hread, hadmits, rfl⟩
        exact ⟨make xs, rest, by simp [hread], (hmake xs).mpr ⟨hlt, hadmits⟩, by rw [hnodes]⟩
      · rintro ⟨t, rest, hmap, hadmits, rfl⟩
        obtain ⟨⟨xs, rest⟩, hread, he⟩ := Option.map_eq_some_iff.mp hmap
        obtain ⟨rfl, rfl⟩ := Prod.mk.inj he
        exact ⟨xs, rest, hread, ((hmake xs).mp hadmits).2, by rw [hnodes]⟩
  · rw [if_pos (Nat.not_lt.mp hlt)]
    constructor
    · nofun
    · rintro ⟨t, rest, he, hadmits, -⟩
      obtain ⟨xs, rfl⟩ : ∃ xs, t = make xs := by
        cases found with
        | some rest => exact ⟨[], (Prod.mk.inj (Option.some.inj he)).1.symm⟩
        | none =>
          obtain ⟨r, -, he⟩ := Option.map_eq_some_iff.mp he
          exact ⟨r.1, (Prod.mk.inj he).1.symm⟩
      exact absurd ((hmake xs).mp hadmits).1 hlt

theorem Follows.value_succ (h : Follows n) (hs : s.InRange) (hd : depth ≤ s.limits.depth) :
    Scan.value (n + 1) depth s = .ok s' ↔ ∃ t rest, Json.value (n + 1) s.rest = some (t, rest) ∧
      Admits s depth t ∧ s' = s.moved t.nodes rest := by
  rw [hs.value_eq]
  by_cases hn : s.nodes + 1 ≤ s.limits.nodes
  · rw [if_pos hn]
    cases hr : Json.skip s.rest with
    | nil => simp [Json.value, hr]
    | cons b r =>
      have hinner : Json.skip r <:+ s.bytes := (Json.skip_suffix r).trans <|
        (List.suffix_cons b r).trans <| (hr ▸ Json.skip_suffix s.rest).trans s.rest_suffix
      have hskip : (s.moved 1 (Json.skip r)).rest = Json.skip r := moved_rest hinner 1
      have hin := moved_inRange s 1 (Json.skip r)
      by_cases hbrace : b = Json.openBrace
      · subst hbrace
        simp only [true_or, if_true]
        refine container_ok Tree.object memberNodes (fun ms => admits_object (Json.skip r)) (fun ms => by
          rw [Tree.nodes, Nat.add_comm]) (fun hlt => admitsMembers_nil.mpr ⟨hlt, hn⟩) rfl
          (fun hlt => ?_) (Json.value_object hr)
        refine Iff.trans (h.members hin hlt) ?_
        simp only [hskip, Json.members_skip, moved_moved]
      by_cases hbracket : b = Json.openBracket
      · subst hbracket
        simp only [or_true, if_true]
        refine container_ok Tree.array nodesOf (fun ts => admits_array (Json.skip r)) (fun ts => by
          rw [Tree.nodes, Nat.add_comm]) (fun hlt => admitsElements_nil.mpr ⟨hlt, hn, Nat.zero_le _⟩)
          rfl (fun hlt => ?_) (Json.value_array hr)
        refine Iff.trans (h.elements hin hlt) ?_
        simp only [hskip, Json.elements_skip, moved_moved]
      simp only [hbrace, hbracket, or_self, if_false]
      by_cases hquote : b = Json.quote
      · subst hquote
        rw [if_pos rfl, Json.value_string hr]
        cases htext : Json.string r with
        | none => simp
        | some found =>
          obtain ⟨text, rest⟩ := found
          have hleaf := admits_leaf (s := s) (t := .string text) rfl rfl rfl hd hn
          by_cases hsize : text.utf8ByteSize ≤ s.limits.stringBytes
          · simp [hsize, hleaf, Own, Tree.nodes, eq_comm]
          · simp [hsize, hleaf, Own]
      · rw [if_neg hquote, Json.value_scalar hr hbracket hbrace hquote]
        cases hscalar : Json.scalar (b :: r) with
        | none => simp
        | some found =>
          obtain ⟨t, rest⟩ := found
          have hleaf : t.nodes = 1 ∧ Admits s depth t := by
            obtain ⟨token, ht, -⟩ := Json.scalar_sound hscalar
            rcases Json.decodeScalar_iff.mp ht with ⟨rfl, -⟩ | ⟨b, rfl, -⟩ | ⟨rfl, -⟩ <;>
              exact ⟨rfl, (admits_leaf rfl rfl rfl hd hn).mpr trivial⟩
          simp [hleaf, eq_comm]
  · rw [if_neg hn]
    constructor
    · rintro ⟨⟩
    · rintro ⟨t, rest, -, hadmits, -⟩
      have hnodes := hadmits.nodes
      have hpos := nodes_pos t
      omega

end

theorem follows (n : Nat) : Follows n := by
  induction n with
  | zero => exact ⟨by simp [Scan.value, Json.value], by simp [items, Json.elements],
      by simp [items, Json.members]⟩
  | succ n ih => exact ⟨ih.value_succ, ih.elements_succ, ih.members_succ⟩

/-! The scan ends, in its own words, on every input. -/

def Orderly {α : Type} (r : Except Stop α) : Prop := ∀ stop, r = .error stop → ∃ e, stop = .refused e

theorem orderly_refused {α : Type} (e : Error) : Orderly (.error (.refused e) : Except Stop α) :=
  fun _ h => ⟨e, (Except.error.inj h).symm⟩

theorem orderly_ok {α : Type} (a : α) : Orderly (.ok a) := nofun

theorem Orderly.bind {α β : Type} {r : Except Stop α} {f : α → Except Stop β} (h : Orderly r)
    (hf : ∀ a, r = .ok a → Orderly (f a)) : Orderly (r >>= f) := by
  cases r with
  | error stop =>
    obtain ⟨e, rfl⟩ := h stop rfl
    exact orderly_refused e
  | ok a => exact hf a rfl

section

variable {n depth count : Nat} {object : Bool} {keys : List String}

theorem InRange.key_orderly (h : s.InRange) (keys : List String) : Orderly (s.key keys) := by
  rw [h.key_eq]
  repeat' split
  all_goals first | exact orderly_refused _ | exact orderly_ok _

theorem value_shorter {s' : Scan} (hs : s.InRange) (hd : depth ≤ s.limits.depth)
    (h : value n depth s = .ok s') :
    s'.InRange ∧ s'.limits = s.limits ∧ s'.rest.length < s.rest.length := by
  obtain ⟨t, rest, ht, -, rfl⟩ := ((follows n).value hs hd).mp h
  have hsuffix := Json.value_suffix ht
  rw [moved_rest (hsuffix.1.trans s.rest_suffix)]
  exact ⟨moved_inRange _ _ _, rfl, hsuffix.2⟩

/-- With fuel for two calls for each byte that is left. -/
structure Ends (n : Nat) : Prop where
  value : ∀ {depth s}, s.InRange → depth ≤ s.limits.depth → 2 * s.rest.length + 1 ≤ n →
    Orderly (value n depth s)
  items : ∀ {depth object keys count s}, s.InRange → depth < s.limits.depth →
    2 * s.rest.length + 2 ≤ n → Orderly (items n depth object keys count s)

theorem Ends.after (h : Ends n) (hs : s.InRange) (hd : depth < s.limits.depth)
    (hn : 2 * s.rest.length ≤ n) : Orderly (s.after n depth object keys count) := by
  rw [hs.after_eq]
  split
  · exact orderly_ok _
  · split
    case h_1 next hc =>
      have hsuffix := Json.expect_suffix hc
      have hlen := (Json.skip_suffix s.rest).length_le
      refine h.items (moved_inRange _ _ _) hd ?_
      rw [moved_rest (hsuffix.1.trans ((Json.skip_suffix s.rest).trans s.rest_suffix))]
      omega
    case h_2 => exact orderly_refused _

theorem Ends.item (h : Ends n) (hs : s.InRange) (hd : depth < s.limits.depth)
    (hn : 2 * s.rest.length + 1 ≤ n) :
    Orderly (Scan.value n (depth + 1) s >>= Scan.after n depth object keys count) := by
  refine (h.value hs hd hn).bind fun s₁ hv => ?_
  obtain ⟨hin, hlimits, hlen⟩ := value_shorter hs hd hv
  exact h.after hin (hlimits ▸ hd) (by omega)

theorem Ends.items_succ (h : Ends n) (hs : s.InRange) (hd : depth < s.limits.depth)
    (hn : 2 * s.rest.length + 2 ≤ n + 1) : Orderly (Scan.items (n + 1) depth object keys count s) := by
  cases object with
  | false =>
    rw [items_array]
    split
    · exact h.item hs hd (by omega)
    · exact orderly_refused _
  | true =>
    rw [items_object]
    refine (hs.key_orderly keys).bind fun r hk => ?_
    obtain ⟨body, text, colons, inner, hbody, htext, hcolon, -, -, hmoved, hinner⟩ := (key_ok hs).mp hk
    have hlen := (Json.member_suffix hbody htext hcolon).2
    have hrest : r.2.rest = inner := hmoved ▸ moved_rest hinner 1
    refine h.item (hmoved ▸ moved_inRange _ _ _) (hmoved ▸ hd) ?_
    rw [hrest]
    omega

theorem Ends.value_succ (h : Ends n) (hs : s.InRange) (hn : 2 * s.rest.length + 1 ≤ n + 1) :
    Orderly (Scan.value (n + 1) depth s) := by
  rw [hs.value_eq]
  split
  case isFalse => exact orderly_refused _
  case isTrue =>
  split
  case h_1 => exact orderly_refused _
  case h_2 b rest hr =>
  have hlen := (Json.skip_suffix s.rest).length_le
  rw [hr, List.length_cons] at hlen
  split
  case isTrue =>
    split
    case isTrue => exact orderly_refused _
    case isFalse hd =>
      split
      · exact orderly_ok _
      · have hsuffix := Json.skip_suffix rest
        have hinner : Json.skip rest <:+ s.bytes := hsuffix.trans <| (List.suffix_cons b rest).trans <|
          (hr ▸ Json.skip_suffix s.rest).trans s.rest_suffix
        refine h.items (moved_inRange _ _ _) (Nat.not_le.mp hd) ?_
        rw [moved_rest hinner]
        have hle := hsuffix.length_le
        omega
  case isFalse =>
    repeat' split
    all_goals first | exact orderly_refused _ | exact orderly_ok _

end

theorem ends (n : Nat) : Ends n := by
  induction n with
  | zero => exact ⟨fun _ _ h => absurd h (by omega), fun _ _ h => absurd h (by omega)⟩
  | succ n ih => exact ⟨fun hs _ hn => ih.value_succ hs hn, ih.items_succ⟩

end Scan

theorem trailing_ok {s : Scan} {rest : List UInt8} (k : Nat) (hr : rest <:+ s.bytes) :
    (s.moved k rest).space.pos = s.bytes.length ↔ Json.skip rest = [] := by
  have hle := ((Json.skip_suffix rest).trans hr).length_le
  rw [(Scan.moved_inRange s k rest).space_eq, Scan.moved_rest hr, Scan.moved_moved,
    ← List.length_eq_zero_iff]
  change s.bytes.length - (Json.skip rest).length = s.bytes.length ↔ _
  omega

theorem scan_ok {bytes : List UInt8} {limits : Limits} :
    scan bytes limits = .ok () ↔ ∃ t, Json.parse bytes = some t ∧ Within limits t := by
  have hin : (⟨bytes, 0, 0, limits⟩ : Scan).InRange := Nat.zero_le _
  have hbudget : ∀ t, Scan.Admits ⟨bytes, 0, 0, limits⟩ 0 t ↔ Within limits t := by
    intro t
    rw [within_iff]
    exact ⟨fun h => ⟨h.fits, by simpa using h.depth, by simpa using h.nodes⟩,
      fun h => ⟨by simpa using h.2.1, by simpa using h.2.2, h.1⟩⟩
  have hvalue : ∀ s, Scan.value (2 * bytes.length + 1) 0 ⟨bytes, 0, 0, limits⟩ = .ok s ↔ _ :=
    fun s => (Scan.follows _).value hin (Nat.zero_le _)
  rw [scan]
  constructor
  · intro h
    obtain ⟨s, hs, h⟩ := bind_ok.mp h
    obtain ⟨t, rest, ht, hadmits, rfl⟩ := (hvalue s).mp hs
    refine ⟨t, ?_, (hbudget t).mp hadmits⟩
    dsimp only at h
    split_ifs at h with hpos
    have hrest := (trailing_ok t.nodes (Json.value_suffix ht).1).mp (not_not.mp hpos)
    simp only [Scan.rest, List.drop_zero] at ht
    simp [Json.parse, ht, hrest]
  · rintro ⟨t, hparse, hwithin⟩
    simp only [Json.parse, Option.bind_eq_bind, Option.bind_eq_some_iff] at hparse
    obtain ⟨⟨found, rest⟩, ht, hparse⟩ := hparse
    split_ifs at hparse with hrest
    obtain rfl := Option.some.inj hparse
    refine bind_ok.mpr ⟨_, (hvalue _).mpr ⟨found, rest, ht, (hbudget found).mpr hwithin, rfl⟩, ?_⟩
    exact if_neg (not_not.mpr ((trailing_ok _ (Json.value_suffix ht).1).mpr hrest))

/-- A scan accepts exactly the JSON texts that keep within the limits, and on all other bytes
it stops with an error of its own, in range and after finitely many calls. -/
theorem scan_language (bytes : List UInt8) (limits : Limits) :
    (scan bytes limits = .ok () ↔ ∃ t, Json.Text t bytes ∧ Within limits t) ∧
      ∀ stop, scan bytes limits = .error stop → ∃ e, stop = .refused e := by
  constructor
  · simp only [scan_ok, Json.parse_iff]
  · have hin : (⟨bytes, 0, 0, limits⟩ : Scan).InRange := Nat.zero_le _
    have hvalue : Scan.Orderly (Scan.value (2 * bytes.length + 1) 0 ⟨bytes, 0, 0, limits⟩) :=
      (Scan.ends _).value hin (Nat.zero_le _) (by simp [Scan.rest])
    refine hvalue.bind fun s _ => ?_
    dsimp only
    split
    · exact Scan.orderly_refused _
    · exact Scan.orderly_ok _

end TalkSphere.Board
