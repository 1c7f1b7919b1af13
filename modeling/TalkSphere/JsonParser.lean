import Mathlib.Data.List.DropRight
import TalkSphere.JsonTokens

/-! A recursive descent parser, and that it returns the one tree of every JSON text and
nothing on other bytes. The fuel bounds the calls below a call. -/

namespace Json

def skip (s : List UInt8) : List UInt8 := s.dropWhile isSpace

def expect (b : UInt8) : List UInt8 → Option (List UInt8)
  | [] => none
  | c :: rest => if c = b then some rest else none

/-- How many bytes there are up to the next quotation mark that is not escaped, with it. -/
def closing : List UInt8 → Option Nat
  | [] => none
  | b :: rest =>
    if b = quote then some 1
    else if b = backslash then
      match rest with
      | [] => none
      | _ :: rest => (closing rest).map (· + 2)
    else (closing rest).map (· + 1)

/-- A string from behind its first quotation mark. -/
def string (s : List UInt8) : Option (String × List UInt8) := do
  let n ← closing s
  let text ← decodeString (quote :: s.take n)
  some (text, s.drop n)

def scalar (s : List UInt8) : Option (Tree × List UInt8) := do
  let t ← decodeScalar (s.takeWhile (!isStop ·))
  some (t, s.dropWhile (!isStop ·))

mutual

def value : Nat → List UInt8 → Option (Tree × List UInt8)
  | 0, _ => none
  | n + 1, s =>
    match skip s with
    | [] => none
    | b :: rest =>
      if b = openBracket then
        match expect closeBracket (skip rest) with
        | some rest => some (.array [], rest)
        | none => (elements n rest).map fun r => (.array r.1, r.2)
      else if b = openBrace then
        match expect closeBrace (skip rest) with
        | some rest => some (.object [], rest)
        | none => (members n rest).map fun r => (.object r.1, r.2)
      else if b = quote then (string rest).map fun r => (.string r.1, r.2)
      else scalar (b :: rest)

/-- Elements up to the end of their array. -/
def elements : Nat → List UInt8 → Option (List Tree × List UInt8)
  | 0, _ => none
  | n + 1, s => do
    let (t, rest) ← value n s
    match expect closeBracket (skip rest) with
    | some rest => some ([t], rest)
    | none =>
      let rest ← expect comma (skip rest)
      let (items, rest) ← elements n rest
      some (t :: items, rest)

def members : Nat → List UInt8 → Option (List (String × Tree) × List UInt8)
  | 0, _ => none
  | n + 1, s => do
    let rest ← expect quote (skip s)
    let (key, rest) ← string rest
    let rest ← expect colon (skip rest)
    let (t, rest) ← value n rest
    match expect closeBrace (skip rest) with
    | some rest => some ([(key, t)], rest)
    | none =>
      let rest ← expect comma (skip rest)
      let (members, rest) ← members n rest
      some ((key, t) :: members, rest)

end

/-- The tree of a whole text. -/
def parse (bytes : List UInt8) : Option Tree := do
  let (t, rest) ← value (2 * bytes.length + 1) bytes
  if skip rest = [] then some t else none

section

variable {s rest : List UInt8}

theorem skip_split (s : List UInt8) : ∃ gap, Space gap ∧ s = gap ++ skip s :=
  ⟨s.takeWhile isSpace, fun _ hb => List.mem_takeWhile_imp hb,
    List.takeWhile_append_dropWhile.symm⟩

theorem skip_gap {gap : List UInt8} (hg : Space gap) (s : List UInt8) : skip (gap ++ s) = skip s :=
  List.dropWhile_append_of_pos hg

theorem skip_cons {b : UInt8} (hb : isSpace b = false) (s : List UInt8) :
    skip (b :: s) = b :: s := by
  simp [skip, hb]

theorem skip_gap_cons {gap : List UInt8} {b : UInt8} (hg : Space gap) (hb : isSpace b = false)
    (s : List UInt8) : skip (gap ++ b :: s) = b :: s := by
  rw [skip_gap hg, skip_cons hb]

theorem expect_iff {b : UInt8} : expect b s = some rest ↔ s = b :: rest := by
  cases s with
  | nil => simp [expect]
  | cons c s => by_cases hc : c = b <;> simp [expect, hc]

theorem expect_cons_ne {b c : UInt8} (h : c ≠ b) (s : List UInt8) : expect b (c :: s) = none := by
  simp [expect, h]

theorem expect_skip {b : UInt8} (h : expect b (skip s) = some rest) :
    ∃ gap, Space gap ∧ s = gap ++ b :: rest := by
  obtain ⟨gap, hg, hs⟩ := skip_split s
  exact ⟨gap, hg, by rw [← expect_iff.mp h, ← hs]⟩

end

/-! Strings: the closing quotation mark is the first one that is not escaped. -/

/-- Bytes that end no string. -/
def Inside (bytes : List UInt8) : Prop :=
  ∀ s, closing (bytes ++ s) = (closing s).map (· + bytes.length)

theorem Inside.append {bytes more : List UInt8} (h : Inside bytes) (h' : Inside more) :
    Inside (bytes ++ more) := by
  intro s
  rw [List.append_assoc, h, h', Option.map_map, List.length_append]
  exact congrArg (Option.map · (closing s)) (funext fun n => by simp only [Function.comp]; omega)

theorem Inside.escape (b : UInt8) : Inside [backslash, b] := fun _ => rfl

theorem Inside.plain {bytes : List UInt8} (hb : ∀ b ∈ bytes, b ≠ quote ∧ b ≠ backslash) :
    Inside bytes := by
  induction bytes with
  | nil => exact fun s => by simp
  | cons b bytes ih =>
    have hfirst : Inside [b] := by
      obtain ⟨hq, he⟩ := hb b List.mem_cons_self
      intro s
      rw [List.singleton_append, closing.eq_def]
      simp only [if_neg hq, if_neg he, List.length_singleton]
    exact hfirst.append (ih fun c hc => hb c (List.mem_cons_of_mem b hc))

theorem encode_plain {c : Char} (hq : c.toNat ≠ 0x22) (he : c.toNat ≠ 0x5C) :
    ∀ b ∈ String.utf8EncodeChar c, b ≠ quote ∧ b ≠ backslash := by
  have hbyte : ∀ {n : Nat}, n % 256 ≠ 0x22 → n % 256 ≠ 0x5C →
      UInt8.ofNat n ≠ quote ∧ UInt8.ofNat n ≠ backslash := by
    intro n h h'
    refine ⟨fun hn => h ?_, fun hn => h' ?_⟩ <;>
      simpa [quote, backslash] using congrArg UInt8.toNat hn
  intro b hb
  change c.val.toNat ≠ 0x22 at hq
  change c.val.toNat ≠ 0x5C at he
  simp only [String.utf8EncodeChar] at hb
  split_ifs at hb <;> simp only [List.mem_cons, List.not_mem_nil, or_false] at hb
  · subst hb
    apply hbyte <;> omega
  · rcases hb with rfl | rfl <;> apply hbyte <;> omega
  · rcases hb with rfl | rfl | rfl <;> apply hbyte <;> omega
  · rcases hb with rfl | rfl | rfl | rfl <;> apply hbyte <;> omega

theorem Inside.chars {chars : List Char} (h : ∀ c ∈ chars, c.toNat ≠ 0x22 ∧ c.toNat ≠ 0x5C) :
    Inside (utf8 chars) := by
  refine .plain fun b hb => ?_
  obtain ⟨c, hc, hb⟩ := List.mem_flatMap.mp hb
  exact encode_plain (h c hc).1 (h c hc).2 b hb

theorem encode_ascii {c : Char} (h : c.toNat ≤ 127) :
    String.utf8EncodeChar c = [UInt8.ofNat c.toNat] := by
  rw [String.utf8EncodeChar]
  exact if_pos h

theorem utf8_append (chars more : List Char) : utf8 (chars ++ more) = utf8 chars ++ utf8 more :=
  List.flatMap_append

theorem Inside.escaped {e : Char} (h : e.toNat ≤ 127) : Inside (utf8 [Json.escape, e]) := by
  have hbytes : utf8 [Json.escape, e] = [backslash, UInt8.ofNat e.toNat] := by
    simp only [utf8, List.flatMap_cons, List.flatMap_nil, encode_ascii h]
    rfl
  rw [hbytes]
  exact .escape _

theorem shortEscape_ascii {e c : Char} (h : shortEscape e = some c) : e.toNat ≤ 127 := by
  unfold shortEscape at h
  split_ifs at h <;> omega

theorem hexDigit_plain {c : Char} {n : Nat} (h : hexDigit c = some n) :
    c.toNat ≠ 0x22 ∧ c.toNat ≠ 0x5C := by
  unfold hexDigit at h
  split_ifs at h <;> omega

theorem hex4_plain {a b c d : Char} {n : Nat} (h : hex4 a b c d = some n) :
    ∀ x ∈ [a, b, c, d], x.toNat ≠ 0x22 ∧ x.toNat ≠ 0x5C := by
  simp only [hex4, Option.bind_eq_bind, Option.bind_eq_some_iff] at h
  obtain ⟨na, ha, nb, hb, nc, hc, nd, hd, -⟩ := h
  intro x hx
  simp only [List.mem_cons, List.not_mem_nil, or_false] at hx
  rcases hx with rfl | rfl | rfl | rfl
  exacts [hexDigit_plain ha, hexDigit_plain hb, hexDigit_plain hc, hexDigit_plain hd]

theorem Inside.numeric {a b c d : Char} {n : Nat} (h : hex4 a b c d = some n) :
    Inside (utf8 [Json.escape, 'u', a, b, c, d]) := by
  have hu : Inside (utf8 [Json.escape, 'u']) := .escaped (by decide)
  exact utf8_append [Json.escape, 'u'] [a, b, c, d] ▸ hu.append (.chars (hex4_plain h))

theorem Item.inside {spelled : List Char} {c : Char} (h : Item spelled c) :
    Inside (utf8 spelled) := by
  cases h with
  | plain printable quote escape =>
    exact .chars fun x hx => List.mem_singleton.mp hx ▸ ⟨quote, escape⟩
  | short h => exact .escaped (shortEscape_ascii h)
  | scalar h range => exact .numeric h
  | @pair a b c d a' b' c' d' high low h h' lead trail =>
    have happend := utf8_append [escape, 'u', a, b, c, d] [escape, 'u', a', b', c', d']
    exact happend ▸ (Inside.numeric h).append (.numeric h')

theorem Chars.inside {body text : List Char} (h : Chars body text) : Inside (utf8 body) := by
  induction h with
  | nil => exact .plain nofun
  | @cons spelled body text c h rest ih => exact utf8_append spelled body ▸ h.inside.append ih

theorem IsString.body {text : String} {token : List UInt8} (h : IsString text token) :
    ∃ bytes, Inside bytes ∧ token = quote :: (bytes ++ [quote]) := by
  obtain ⟨body, hb, rfl⟩ := h
  refine ⟨utf8 body, hb.inside, ?_⟩
  simp only [utf8, List.flatMap_cons, List.flatMap_append, List.flatMap_nil]
  rfl

theorem string_iff {s rest : List UInt8} {text : String} : string s = some (text, rest) ↔
    ∃ body, IsString text (quote :: body) ∧ s = body ++ rest := by
  constructor
  · intro h
    simp only [string, Option.bind_eq_bind, Option.bind_eq_some_iff] at h
    obtain ⟨n, -, found, hfound, he⟩ := h
    obtain ⟨rfl, rfl⟩ := Prod.mk.inj (Option.some.inj he)
    exact ⟨s.take n, decodeString_iff.mp hfound, (List.take_append_drop n s).symm⟩
  · rintro ⟨body, hs, rfl⟩
    obtain ⟨bytes, hin, htoken⟩ := hs.body
    obtain rfl := (List.cons.inj htoken).2
    have hclose : closing (bytes ++ [quote] ++ rest) = some (bytes ++ [quote]).length := by
      have hquote : closing (quote :: rest) = some 1 := by rw [closing.eq_def]; rfl
      rw [List.append_assoc, hin, List.singleton_append, hquote, List.length_append, Nat.add_comm]
      rfl
    simp only [string, hclose, Option.bind_eq_bind, Option.bind_some, List.take_left', List.drop_left',
      decodeString_iff.mpr hs]

/-! Scalars. -/

/-- What a scalar can stand before. -/
def Delimited (rest : List UInt8) : Prop := ∀ b ∈ rest.head?, isStop b = true

theorem delimited_cons {b : UInt8} (h : isStop b = true) (s : List UInt8) : Delimited (b :: s) :=
  fun _ hb => Option.some.inj hb ▸ h

theorem delimited_gap {gap rest : List UInt8} (hg : Space gap) (hr : Delimited rest) :
    Delimited (gap ++ rest) := by
  cases gap with
  | nil => exact hr
  | cons b gap => exact delimited_cons (by simp [isStop, hg b List.mem_cons_self]) (gap ++ rest)

theorem scalar_sound {s rest : List UInt8} {t : Tree} (h : scalar s = some (t, rest)) :
    ∃ token, decodeScalar token = some t ∧ s = token ++ rest := by
  simp only [scalar, Option.bind_eq_bind, Option.bind_eq_some_iff] at h
  obtain ⟨found, hfound, he⟩ := h
  obtain ⟨rfl, rfl⟩ := Prod.mk.inj (Option.some.inj he)
  exact ⟨_, hfound, List.takeWhile_append_dropWhile.symm⟩

theorem scalar_complete {token rest : List UInt8} {t : Tree} (h : decodeScalar token = some t)
    (hr : Delimited rest) : scalar (token ++ rest) = some (t, rest) := by
  have hin : ∀ b ∈ token, (!isStop b) = true := by
    intro b hb
    rw [(decodeScalar_bytes h).2.1 b hb]
    rfl
  have htake : rest.takeWhile (!isStop ·) = [] := by
    cases rest with
    | nil => rfl
    | cons b rest => simp [hr b rfl]
  have hdrop : rest.dropWhile (!isStop ·) = rest := by
    cases rest with
    | nil => rfl
    | cons b rest => simp [hr b rfl]
  rw [scalar, List.takeWhile_append_of_pos hin, List.dropWhile_append_of_pos hin, htake, hdrop,
    List.append_nil, h]
  rfl

theorem derives_of_decodeScalar {token : List UInt8} {t : Tree} (h : decodeScalar token = some t) :
    Derives (.value t) token := by
  rcases decodeScalar_iff.mp h with ⟨rfl, rfl⟩ | ⟨b, rfl, rfl⟩ | ⟨rfl, hn⟩
  · exact .null
  · exact .bool b
  · exact .number hn

/-! Whatever the parser reads, the grammar derives. -/

structure Sound (n : Nat) : Prop where
  value : ∀ {s rest t}, value n s = some (t, rest) →
    ∃ gap token, Space gap ∧ Derives (.value t) token ∧ s = gap ++ (token ++ rest)
  elements : ∀ {s rest items}, elements n s = some (items, rest) →
    ∃ body, Derives (.elements items) body ∧ s = body ++ closeBracket :: rest
  members : ∀ {s rest ms}, members n s = some (ms, rest) →
    ∃ body, Derives (.members ms) body ∧ s = body ++ closeBrace :: rest

section

variable {n : Nat} {s rest : List UInt8} {t : Tree}

theorem Sound.padded (h : Sound n) {tail : List UInt8} {b : UInt8}
    (hv : Json.value n s = some (t, rest)) (hb : expect b (skip rest) = some tail) :
    ∃ body, Derives (.padded t) body ∧ s = body ++ b :: tail := by
  obtain ⟨before, token, hbefore, ht, rfl⟩ := h.value hv
  obtain ⟨after, hafter, rfl⟩ := expect_skip hb
  exact ⟨_, .padded hbefore ht hafter, by simp only [List.append_assoc]⟩

theorem Sound.value_succ (h : Sound n) (hv : Json.value (n + 1) s = some (t, rest)) :
    ∃ gap token, Space gap ∧ Derives (.value t) token ∧ s = gap ++ (token ++ rest) := by
  obtain ⟨gap, hg, hs⟩ := skip_split s
  suffices ∃ token, Derives (.value t) token ∧ skip s = token ++ rest by
    obtain ⟨token, ht, htoken⟩ := this
    exact ⟨gap, token, hg, ht, htoken ▸ hs⟩
  rw [Json.value] at hv
  generalize skip s = s at hv
  cases s with
  | nil => cases hv
  | cons b s =>
    simp only at hv
    split_ifs at hv with hbracket hbrace hquote
    · subst hbracket
      split at hv
      case h_1 tail htail =>
        obtain ⟨rfl, rfl⟩ := Prod.mk.inj (Option.some.inj hv)
        obtain ⟨inner, hi, rfl⟩ := expect_skip htail
        exact ⟨_, .emptyArray hi, by simp⟩
      case h_2 =>
        obtain ⟨⟨items, tail⟩, hitems, he⟩ := Option.map_eq_some_iff.mp hv
        obtain ⟨rfl, rfl⟩ := Prod.mk.inj he
        obtain ⟨body, hb, rfl⟩ := h.elements hitems
        exact ⟨_, .array hb, by simp⟩
    · subst hbrace
      split at hv
      case h_1 tail htail =>
        obtain ⟨rfl, rfl⟩ := Prod.mk.inj (Option.some.inj hv)
        obtain ⟨inner, hi, rfl⟩ := expect_skip htail
        exact ⟨_, .emptyObject hi, by simp⟩
      case h_2 =>
        obtain ⟨⟨ms, tail⟩, hms, he⟩ := Option.map_eq_some_iff.mp hv
        obtain ⟨rfl, rfl⟩ := Prod.mk.inj he
        obtain ⟨body, hb, rfl⟩ := h.members hms
        exact ⟨_, .object hb, by simp⟩
    · subst hquote
      obtain ⟨⟨text, tail⟩, htext, he⟩ := Option.map_eq_some_iff.mp hv
      obtain ⟨rfl, rfl⟩ := Prod.mk.inj he
      obtain ⟨body, hb, rfl⟩ := string_iff.mp htext
      exact ⟨_, .string hb, by simp⟩
    · obtain ⟨token, ht, htoken⟩ := scalar_sound hv
      exact ⟨token, derives_of_decodeScalar ht, htoken⟩

theorem Sound.elements_succ (h : Sound n) {items : List Tree}
    (hv : Json.elements (n + 1) s = some (items, rest)) :
    ∃ body, Derives (.elements items) body ∧ s = body ++ closeBracket :: rest := by
  simp only [Json.elements, Option.bind_eq_bind, Option.bind_eq_some_iff] at hv
  obtain ⟨⟨t, after⟩, ht, hv⟩ := hv
  simp only at hv
  split at hv
  case h_1 tail htail =>
    obtain ⟨rfl, rfl⟩ := Prod.mk.inj (Option.some.inj hv)
    obtain ⟨body, hb, rfl⟩ := h.padded ht htail
    exact ⟨body, .element hb, rfl⟩
  case h_2 =>
    simp only [Option.bind_eq_some_iff] at hv
    obtain ⟨tail, htail, ⟨more, last⟩, hmore, he⟩ := hv
    obtain ⟨rfl, rfl⟩ := Prod.mk.inj (Option.some.inj he)
    obtain ⟨body, hb, rfl⟩ := h.padded ht htail
    obtain ⟨others, ho, rfl⟩ := h.elements hmore
    exact ⟨_, .elements hb ho, by simp⟩

theorem Sound.members_succ (h : Sound n) {ms : List (String × Tree)}
    (hv : Json.members (n + 1) s = some (ms, rest)) :
    ∃ body, Derives (.members ms) body ∧ s = body ++ closeBrace :: rest := by
  simp only [Json.members, Option.bind_eq_bind, Option.bind_eq_some_iff] at hv
  obtain ⟨inner, hquote, ⟨key, behind⟩, hkey, value, hcolon, ⟨t, after⟩, ht, hv⟩ := hv
  obtain ⟨before, hbefore, rfl⟩ := expect_skip hquote
  obtain ⟨body, hstring, rfl⟩ := string_iff.mp hkey
  obtain ⟨between, hbetween, rfl⟩ := expect_skip hcolon
  simp only at hv
  split at hv
  case h_1 tail htail =>
    obtain ⟨rfl, rfl⟩ := Prod.mk.inj (Option.some.inj hv)
    obtain ⟨body, hb, rfl⟩ := h.padded ht htail
    exact ⟨_, .member hbefore hstring hbetween hb, by simp⟩
  case h_2 =>
    simp only [Option.bind_eq_some_iff] at hv
    obtain ⟨tail, htail, ⟨more, last⟩, hmore, he⟩ := hv
    obtain ⟨rfl, rfl⟩ := Prod.mk.inj (Option.some.inj he)
    obtain ⟨body, hb, rfl⟩ := h.padded ht htail
    obtain ⟨others, ho, rfl⟩ := h.members hmore
    exact ⟨_, .members hbefore hstring hbetween hb ho, by simp⟩

end

theorem sound (n : Nat) : Sound n := by
  induction n with
  | zero => exact ⟨nofun, nofun, nofun⟩
  | succ n ih => exact ⟨ih.value_succ, ih.elements_succ, ih.members_succ⟩

/-! Whatever the grammar derives, the parser reads, with fuel for two calls for each byte. -/

def Complete : Phrase → List UInt8 → Prop
  | .value t, token => ∀ n gap rest, Space gap → Delimited rest → 2 * token.length + 1 ≤ n →
      value n (gap ++ (token ++ rest)) = some (t, rest)
  | .padded t, body => ∀ n rest, Delimited rest → 2 * body.length + 1 ≤ n →
      ∃ after, value n (body ++ rest) = some (t, after) ∧ skip after = skip rest
  | .elements items, body => ∀ n rest, 2 * body.length + 2 ≤ n →
      elements n (body ++ closeBracket :: rest) = some (items, rest)
  | .members ms, body => ∀ n rest, 2 * body.length + 2 ≤ n →
      members n (body ++ closeBrace :: rest) = some (ms, rest)

theorem value_starts {n : Nat} {s : List UInt8} {r : Tree × List UInt8} (h : value n s = some r) :
    ∀ b ∈ (skip s).head?, isStop b = false := by
  intro b hb
  cases n with
  | zero => cases h
  | succ n =>
    rw [value] at h
    generalize skip s = s at h hb
    cases s with
    | nil => cases h
    | cons c s =>
      obtain rfl : c = b := Option.some.inj hb
      simp only at h
      split_ifs at h with hbracket hbrace hquote
      · rw [hbracket]; rfl
      · rw [hbrace]; rfl
      · rw [hquote]; rfl
      · obtain ⟨token, ht, htoken⟩ := scalar_sound h
        obtain ⟨hne, hstop, -⟩ := decodeScalar_bytes ht
        obtain ⟨d, token, rfl⟩ := List.exists_cons_of_ne_nil hne
        rw [(List.cons.inj htoken).1]
        exact hstop d List.mem_cons_self

theorem expect_none {b : UInt8} {s : List UInt8} (h : ∀ c ∈ s.head?, c ≠ b) : expect b s = none := by
  cases s with
  | nil => rfl
  | cons c s => exact expect_cons_ne (h c rfl) s

theorem elements_starts {n : Nat} {s : List UInt8} {r : List Tree × List UInt8}
    (h : elements n s = some r) : expect closeBracket (skip s) = none := by
  cases n with
  | zero => cases h
  | succ n =>
    simp only [elements, Option.bind_eq_bind, Option.bind_eq_some_iff] at h
    obtain ⟨first, hfirst, -⟩ := h
    refine expect_none fun c hc he => ?_
    have hstop := value_starts hfirst c hc
    rw [he] at hstop
    cases hstop

theorem members_starts {n : Nat} {s : List UInt8} {r : List (String × Tree) × List UInt8}
    (h : members n s = some r) : expect closeBrace (skip s) = none := by
  cases n with
  | zero => cases h
  | succ n =>
    simp only [members, Option.bind_eq_bind, Option.bind_eq_some_iff] at h
    obtain ⟨inner, hquote, -⟩ := h
    rw [expect_iff.mp hquote]
    exact expect_cons_ne (by decide) inner

theorem value_gap {n : Nat} {gap : List UInt8} {b : UInt8} (hg : Space gap)
    (hb : isSpace b = false) (s : List UInt8) :
    value (n + 1) (gap ++ b :: s) = value (n + 1) (b :: s) := by
  simp only [value, skip_gap_cons hg hb, skip_cons hb]

theorem Complete.scalar {token : List UInt8} {t : Tree} (h : decodeScalar token = some t) :
    Complete (.value t) token := by
  intro n gap rest hg hr hn
  obtain ⟨hne, hstop, hstart⟩ := decodeScalar_bytes h
  obtain ⟨b, token, rfl⟩ := List.exists_cons_of_ne_nil hne
  obtain ⟨n, rfl⟩ := Nat.exists_eq_add_one.mpr (show 0 < n by omega)
  obtain ⟨hquote, hbracket, hbrace⟩ := hstart b List.mem_cons_self
  have hb : isSpace b = false := by
    have hb := hstop b List.mem_cons_self
    simp only [isStop, Bool.or_eq_false_iff] at hb
    exact hb.1.1.1
  rw [List.cons_append, value_gap hg hb, value, skip_cons hb]
  simp only [if_neg hbracket, if_neg hbrace, if_neg hquote]
  exact scalar_complete h hr

theorem Complete.string {text : String} {token : List UInt8} (h : IsString text token) :
    Complete (.value (.string text)) token := by
  intro n gap rest hg hr hn
  obtain ⟨bytes, -, rfl⟩ := h.body
  obtain ⟨n, rfl⟩ := Nat.exists_eq_add_one.mpr (show 0 < n by omega)
  have hread := string_iff.mpr ⟨bytes ++ [quote], h, (rfl : _ = _ ++ rest)⟩
  rw [List.cons_append, value_gap hg rfl, value, skip_cons rfl]
  simp only [if_neg (show quote ≠ openBracket by decide), if_neg (show quote ≠ openBrace by decide),
    if_true, hread, Option.map_some]

theorem Complete.emptyArray {gap : List UInt8} (h : Space gap) :
    Complete (.value (.array [])) (openBracket :: (gap ++ [closeBracket])) := by
  intro n before rest hg hr hn
  obtain ⟨n, rfl⟩ := Nat.exists_eq_add_one.mpr (show 0 < n by omega)
  rw [List.cons_append, value_gap hg rfl, value, skip_cons rfl, List.append_assoc,
    List.singleton_append]
  simp only [if_true, skip_gap_cons h (show isSpace closeBracket = false from rfl),
    expect_iff.mpr rfl]

theorem Complete.array {items : List Tree} {body : List UInt8}
    (h : Complete (.elements items) body) :
    Complete (.value (.array items)) (openBracket :: (body ++ [closeBracket])) := by
  intro n gap rest hg hr hn
  obtain ⟨n, rfl⟩ := Nat.exists_eq_add_one.mpr (show 0 < n by omega)
  simp only [List.length_cons, List.length_append, List.length_nil] at hn
  have hread := h n rest (by omega)
  rw [List.cons_append, value_gap hg rfl, value, skip_cons rfl, List.append_assoc,
    List.singleton_append]
  simp only [if_true, elements_starts hread, hread, Option.map_some]

theorem Complete.emptyObject {gap : List UInt8} (h : Space gap) :
    Complete (.value (.object [])) (openBrace :: (gap ++ [closeBrace])) := by
  intro n before rest hg hr hn
  obtain ⟨n, rfl⟩ := Nat.exists_eq_add_one.mpr (show 0 < n by omega)
  rw [List.cons_append, value_gap hg rfl, value, skip_cons rfl, List.append_assoc,
    List.singleton_append]
  simp only [if_neg (show openBrace ≠ openBracket by decide), if_true,
    skip_gap_cons h (show isSpace closeBrace = false from rfl), expect_iff.mpr rfl]

theorem Complete.object {ms : List (String × Tree)} {body : List UInt8}
    (h : Complete (.members ms) body) :
    Complete (.value (.object ms)) (openBrace :: (body ++ [closeBrace])) := by
  intro n gap rest hg hr hn
  obtain ⟨n, rfl⟩ := Nat.exists_eq_add_one.mpr (show 0 < n by omega)
  simp only [List.length_cons, List.length_append, List.length_nil] at hn
  have hread := h n rest (by omega)
  rw [List.cons_append, value_gap hg rfl, value, skip_cons rfl, List.append_assoc,
    List.singleton_append]
  simp only [if_neg (show openBrace ≠ openBracket by decide), if_true, members_starts hread, hread,
    Option.map_some]

theorem Complete.padded {t : Tree} {before token after : List UInt8} (hb : Space before)
    (h : Complete (.value t) token) (ha : Space after) :
    Complete (.padded t) (before ++ (token ++ after)) := by
  intro n rest hr hn
  simp only [List.length_append] at hn
  have hread := h n before (after ++ rest) hb (delimited_gap ha hr) (by omega)
  exact ⟨after ++ rest, by simpa only [List.append_assoc] using hread, skip_gap ha rest⟩

theorem Complete.before {t : Tree} {body : List UInt8} (h : Complete (.padded t) body) {n : Nat}
    {b : UInt8} (hstop : isStop b = true) (hspace : isSpace b = false) (rest : List UInt8)
    (hn : 2 * body.length + 1 ≤ n) :
    ∃ after, value n (body ++ b :: rest) = some (t, after) ∧ skip after = b :: rest := by
  obtain ⟨after, hv, hskip⟩ := h n (b :: rest) (delimited_cons hstop rest) hn
  exact ⟨after, hv, hskip.trans (skip_cons hspace rest)⟩

theorem Complete.element {t : Tree} {body : List UInt8} (h : Complete (.padded t) body) :
    Complete (.elements [t]) body := by
  intro n rest hn
  obtain ⟨n, rfl⟩ := Nat.exists_eq_add_one.mpr (show 0 < n by omega)
  obtain ⟨after, hv, hskip⟩ := h.before (b := closeBracket) rfl rfl rest (show _ ≤ n by omega)
  simp only [Json.elements, hv, Option.bind_eq_bind, Option.bind_some, hskip, expect_iff.mpr rfl]

theorem Complete.elements {t : Tree} {items : List Tree} {body more : List UInt8}
    (h : Complete (.padded t) body) (hm : Complete (.elements items) more) :
    Complete (.elements (t :: items)) (body ++ comma :: more) := by
  intro n rest hn
  obtain ⟨n, rfl⟩ := Nat.exists_eq_add_one.mpr (show 0 < n by omega)
  simp only [List.length_append, List.length_cons] at hn
  have hmore := hm n rest (by omega)
  obtain ⟨after, hv, hskip⟩ := h.before (b := comma) rfl rfl (more ++ closeBracket :: rest)
    (show _ ≤ n by omega)
  simp only [List.append_assoc, List.cons_append, Json.elements, hv, Option.bind_eq_bind,
    Option.bind_some, hskip, expect_cons_ne (show comma ≠ closeBracket by decide),
    expect_iff.mpr rfl, hmore]

theorem members_key {key : String} {before token after : List UInt8} (hb : Space before)
    (hk : IsString key token) (ha : Space after) (n : Nat) (s : List UInt8) :
    members (n + 1) (before ++ (token ++ (after ++ colon :: s))) = (do
      let (t, rest) ← value n s
      match expect closeBrace (skip rest) with
      | some rest => some ([(key, t)], rest)
      | none =>
        let rest ← expect comma (skip rest)
        let (ms, rest) ← members n rest
        some ((key, t) :: ms, rest)) := by
  obtain ⟨bytes, -, rfl⟩ := hk.body
  have hread := string_iff.mpr ⟨bytes ++ [quote], hk, (rfl : _ = _ ++ (after ++ colon :: s))⟩
  rw [members, List.cons_append, skip_gap_cons hb rfl]
  simp only [expect_iff.mpr rfl, Option.bind_eq_bind, Option.bind_some, hread,
    skip_gap_cons ha (show isSpace colon = false from rfl)]

theorem Complete.member {key : String} {t : Tree} {before token after body : List UInt8}
    (hb : Space before) (hk : IsString key token) (ha : Space after)
    (h : Complete (.padded t) body) :
    Complete (.members [(key, t)]) (before ++ (token ++ (after ++ colon :: body))) := by
  intro n rest hn
  obtain ⟨n, rfl⟩ := Nat.exists_eq_add_one.mpr (show 0 < n by omega)
  simp only [List.length_append, List.length_cons] at hn
  obtain ⟨left, hv, hskip⟩ := h.before (b := closeBrace) rfl rfl rest (show _ ≤ n by omega)
  simp only [List.append_assoc, List.cons_append, members_key hb hk ha, hv, Option.bind_eq_bind,
    Option.bind_some, hskip, expect_iff.mpr rfl]

theorem Complete.members {key : String} {t : Tree} {ms : List (String × Tree)}
    {before token after body more : List UInt8} (hb : Space before) (hk : IsString key token)
    (ha : Space after) (h : Complete (.padded t) body) (hm : Complete (.members ms) more) :
    Complete (.members ((key, t) :: ms))
      (before ++ (token ++ (after ++ colon :: (body ++ comma :: more)))) := by
  intro n rest hn
  obtain ⟨n, rfl⟩ := Nat.exists_eq_add_one.mpr (show 0 < n by omega)
  simp only [List.length_append, List.length_cons] at hn
  have hmore := hm n rest (by omega)
  obtain ⟨left, hv, hskip⟩ := h.before (b := comma) rfl rfl (more ++ closeBrace :: rest)
    (show _ ≤ n by omega)
  simp only [List.append_assoc, List.cons_append, members_key hb hk ha, hv, Option.bind_eq_bind,
    Option.bind_some, hskip, expect_cons_ne (show comma ≠ closeBrace by decide),
    expect_iff.mpr rfl, hmore]

theorem Derives.complete {p : Phrase} {bytes : List UInt8} (h : Derives p bytes) :
    Complete p bytes := by
  induction h with
  | null => exact .scalar (decodeScalar_iff.mpr (.inl ⟨rfl, rfl⟩))
  | bool b => exact .scalar (decodeScalar_iff.mpr (.inr (.inl ⟨b, rfl, rfl⟩)))
  | number h => exact .scalar (decodeScalar_iff.mpr (.inr (.inr ⟨rfl, h⟩)))
  | string h => exact .string h
  | emptyArray h => exact .emptyArray h
  | array _ ih => exact .array ih
  | emptyObject h => exact .emptyObject h
  | object _ ih => exact .object ih
  | padded hb _ ha ih => exact .padded hb ih ha
  | element _ ih => exact .element ih
  | elements _ _ ih ihr => exact .elements ih ihr
  | member hb hk ha _ ih => exact .member hb hk ha ih
  | members hb hk ha _ _ ih ihr => exact .members hb hk ha ih ihr

theorem skip_eq_nil {s : List UInt8} : skip s = [] ↔ Space s := List.dropWhile_eq_nil_iff

theorem parse_iff {bytes : List UInt8} {t : Tree} : parse bytes = some t ↔ Text t bytes := by
  constructor
  · intro h
    simp only [parse, Option.bind_eq_bind, Option.bind_eq_some_iff] at h
    obtain ⟨⟨found, rest⟩, hv, h⟩ := h
    split_ifs at h with hrest
    obtain rfl := Option.some.inj h
    obtain ⟨gap, token, hg, ht, rfl⟩ := (sound _).value hv
    exact .padded hg ht (skip_eq_nil.mp hrest)
  · intro h
    obtain ⟨after, hv, hskip⟩ := h.complete _ [] nofun le_rfl
    rw [List.append_nil] at hv
    simp only [parse, hv, Option.bind_eq_bind, Option.bind_some]
    exact if_pos hskip

/-! How the readers use the bytes. -/

theorem skip_skip (s : List UInt8) : skip (skip s) = skip s := List.dropWhile_idempotent isSpace s

theorem value_skip (n : Nat) (s : List UInt8) : value n (skip s) = value n s := by
  cases n with
  | zero => rfl
  | succ n => simp only [value, skip_skip]

theorem elements_skip (n : Nat) (s : List UInt8) : elements n (skip s) = elements n s := by
  cases n with
  | zero => rfl
  | succ n => simp only [elements, value_skip]

theorem members_skip (n : Nat) (s : List UInt8) : members n (skip s) = members n s := by
  cases n with
  | zero => rfl
  | succ n => simp only [members, skip_skip]

theorem Derives.ne_nil {t : Tree} {token : List UInt8} (h : Derives (.value t) token) :
    token ≠ [] := by
  cases h with
  | null => nofun
  | bool b => cases b <;> nofun
  | number h => exact (decodeScalar_bytes (decodeScalar_iff.mpr (.inr (.inr ⟨rfl, h⟩)))).1
  | string h =>
    obtain ⟨bytes, -, rfl⟩ := h.body
    nofun
  | emptyArray | array | emptyObject | object => nofun

theorem value_suffix {n : Nat} {s rest : List UInt8} {t : Tree} (h : value n s = some (t, rest)) :
    rest <:+ s ∧ rest.length < s.length := by
  obtain ⟨gap, token, -, ht, rfl⟩ := (sound n).value h
  have hpos := List.length_pos_iff.mpr ht.ne_nil
  refine ⟨⟨gap ++ token, List.append_assoc ..⟩, ?_⟩
  simp only [List.length_append]
  omega

theorem skip_suffix (s : List UInt8) : skip s <:+ s := List.dropWhile_suffix isSpace

theorem expect_suffix {b : UInt8} {s rest : List UInt8} (h : expect b s = some rest) :
    rest <:+ s ∧ rest.length < s.length := by
  rw [expect_iff.mp h]
  exact ⟨List.suffix_cons b rest, by simp⟩

theorem string_suffix {s rest : List UInt8} {text : String} (h : string s = some (text, rest)) :
    rest <:+ s := by
  obtain ⟨body, -, rfl⟩ := string_iff.mp h
  exact List.suffix_append body rest

theorem member_suffix {s body colons inner : List UInt8} {key : String}
    (hb : expect quote (skip s) = some body) (hk : string body = some (key, colons))
    (hc : expect colon (skip colons) = some inner) : inner <:+ s ∧ inner.length < s.length := by
  have hbody := expect_suffix hb
  have hcolons := (expect_suffix hc).1.trans ((skip_suffix colons).trans (string_suffix hk))
  refine ⟨hcolons.trans (hbody.1.trans (skip_suffix s)), ?_⟩
  exact hcolons.length_le.trans_lt (hbody.2.trans_le (skip_suffix s).length_le)

/-! One level of the readers. -/

section

variable {n : Nat} {s r : List UInt8}

theorem value_array (h : skip s = openBracket :: r) : value (n + 1) s =
    match expect closeBracket (skip r) with
    | some rest => some (.array [], rest)
    | none => (elements n r).map fun r => (.array r.1, r.2) := by
  rw [value, h]
  simp only [if_true]

theorem value_object (h : skip s = openBrace :: r) : value (n + 1) s =
    match expect closeBrace (skip r) with
    | some rest => some (.object [], rest)
    | none => (members n r).map fun r => (.object r.1, r.2) := by
  rw [value, h]
  simp only [if_neg (show openBrace ≠ openBracket by decide), if_true]

theorem value_string (h : skip s = quote :: r) :
    value (n + 1) s = (string r).map fun r => (.string r.1, r.2) := by
  rw [value, h]
  simp only [if_neg (show quote ≠ openBracket by decide), if_neg (show quote ≠ openBrace by decide),
    if_true]

theorem value_scalar {b : UInt8} (h : skip s = b :: r) (hbracket : b ≠ openBracket)
    (hbrace : b ≠ openBrace) (hquote : b ≠ quote) : value (n + 1) s = scalar (b :: r) := by
  rw [value, h]
  simp only [if_neg hbracket, if_neg hbrace, if_neg hquote]

theorem elements_succ {ts : List Tree} {rest : List UInt8} :
    elements (n + 1) s = some (ts, rest) ↔ ∃ t behind, value n s = some (t, behind) ∧
      (expect closeBracket (skip behind) = some rest ∧ ts = [t] ∨
        expect closeBracket (skip behind) = none ∧ ∃ next items,
          expect comma (skip behind) = some next ∧ elements n next = some (items, rest) ∧
            ts = t :: items) := by
  simp only [elements, Option.bind_eq_bind, Option.bind_eq_some_iff, Prod.exists]
  refine exists₂_congr fun t behind => and_congr_right fun _ => ?_
  cases expect closeBracket (skip behind) with
  | some tail => simp [and_comm, eq_comm]
  | none =>
    simp only [Option.bind_eq_some_iff, Prod.exists, Option.some.injEq, Prod.mk.injEq, reduceCtorEq,
      false_and, true_and, false_or]
    constructor
    · rintro ⟨next, hn, items, tail, hi, rfl, rfl⟩
      exact ⟨next, items, hn, hi, rfl⟩
    · rintro ⟨next, items, hn, hi, rfl⟩
      exact ⟨next, hn, items, rest, hi, rfl, rfl⟩

theorem members_succ {ms : List (String × Tree)} {rest : List UInt8} :
    members (n + 1) s = some (ms, rest) ↔ ∃ body key colons inner t behind,
      expect quote (skip s) = some body ∧ string body = some (key, colons) ∧
      expect colon (skip colons) = some inner ∧ value n inner = some (t, behind) ∧
      (expect closeBrace (skip behind) = some rest ∧ ms = [(key, t)] ∨
        expect closeBrace (skip behind) = none ∧ ∃ next more,
          expect comma (skip behind) = some next ∧ members n next = some (more, rest) ∧
            ms = (key, t) :: more) := by
  simp only [members, Option.bind_eq_bind, Option.bind_eq_some_iff, Prod.exists]
  constructor
  · rintro ⟨body, hbody, key, colons, hkey, inner, hinner, t, behind, ht, h⟩
    refine ⟨body, key, colons, inner, t, behind, hbody, hkey, hinner, ht, ?_⟩
    split at h
    case h_1 tail htail =>
      obtain ⟨rfl, rfl⟩ := Prod.mk.inj (Option.some.inj h)
      exact .inl ⟨htail, rfl⟩
    case h_2 hnone =>
      simp only [Option.bind_eq_some_iff, Prod.exists] at h
      obtain ⟨next, hnext, more, tail, hmore, he⟩ := h
      obtain ⟨rfl, rfl⟩ := Prod.mk.inj (Option.some.inj he)
      exact .inr ⟨hnone, next, more, hnext, hmore, rfl⟩
  · rintro ⟨body, key, colons, inner, t, behind, hbody, hkey, hinner, ht, h⟩
    refine ⟨body, hbody, key, colons, hkey, inner, hinner, t, behind, ht, ?_⟩
    rcases h with ⟨htail, rfl⟩ | ⟨hnone, next, more, hnext, hmore, rfl⟩
    · simp only [htail]
    · simp only [hnone, hnext, hmore, Option.bind_some]

end

end Json
