import Mathlib.Data.List.TakeWhile
import TalkSphere.Json

/-! Readers of single JSON tokens, and that they decide the grammar of tokens. -/

namespace Json

/-! Strings. -/

/-- The second half of a pair of surrogates. -/
def trailing (high : Nat) : List Char → Option (Char × List Char)
  | e :: u :: a :: b :: c :: d :: rest =>
    if e = escape ∧ u = 'u' then
      match hex4 a b c d with
      | none => none
      | some low =>
        if 0xDC00 ≤ low ∧ low < 0xE000 then some (surrogates high low, rest) else none
    else none
  | _ => none

/-- What follows the mark of a numeric escape. -/
def numeric : List Char → Option (Char × List Char)
  | a :: b :: c :: d :: rest =>
    match hex4 a b c d with
    | none => none
    | some n =>
      if n < 0xD800 ∨ 0xE000 ≤ n then some (Char.ofNat n, rest)
      else if n < 0xDC00 then trailing n rest
      else none
  | _ => none

def escaped : List Char → Option (Char × List Char)
  | [] => none
  | e :: rest => if e = 'u' then numeric rest else (shortEscape e).map (·, rest)

/-- The next character of a string and what follows it; a quotation mark ends the string. -/
def next : List Char → Option (Char × List Char)
  | [] => none
  | c :: rest =>
    if c.toNat = 0x22 then none
    else if c.toNat = 0x5C then escaped rest
    else if c.toNat < 0x20 then none
    else some (c, rest)

theorem toNat_inj {c d : Char} (h : c.toNat = d.toNat) : c = d :=
  Char.ext (UInt32.toNat_inj.mp h)

theorem trailing_iff {high : Nat} {s rest : List Char} {c : Char} :
    trailing high s = some (c, rest) ↔ ∃ a b d e low, hex4 a b d e = some low ∧
      (0xDC00 ≤ low ∧ low < 0xE000) ∧ c = surrogates high low ∧
      s = escape :: 'u' :: a :: b :: d :: e :: rest := by
  constructor
  · intro h
    unfold trailing at h
    split at h
    case h_1 e u a b d f rest' =>
      split at h
      case isTrue hu =>
        split at h
        case h_1 => cases h
        case h_2 low hl =>
          split at h
          case isTrue hr =>
            obtain ⟨rfl, rfl⟩ := Prod.mk.inj (Option.some.inj h)
            obtain ⟨rfl, rfl⟩ := hu
            exact ⟨a, b, d, f, low, hl, hr, rfl, rfl⟩
          case isFalse => cases h
      case isFalse => cases h
    case h_2 => cases h
  · rintro ⟨a, b, d, e, low, hl, hr, rfl, rfl⟩
    simp only [trailing, and_self, if_true, hl, if_pos hr]

theorem numeric_iff {s rest : List Char} {x : Char} :
    numeric s = some (x, rest) ↔ ∃ a b c d n tail, hex4 a b c d = some n ∧
      s = a :: b :: c :: d :: tail ∧ ((n < 0xD800 ∨ 0xE000 ≤ n) ∧ x = Char.ofNat n ∧ tail = rest ∨
        (0xD800 ≤ n ∧ n < 0xDC00) ∧ trailing n tail = some (x, rest)) := by
  constructor
  · intro h
    unfold numeric at h
    split at h
    case h_1 a b c d tail =>
      split at h
      case h_1 => cases h
      case h_2 n hn =>
        refine ⟨a, b, c, d, n, tail, hn, rfl, ?_⟩
        split at h
        case isTrue hr =>
          obtain ⟨rfl, rfl⟩ := Prod.mk.inj (Option.some.inj h)
          exact .inl ⟨hr, rfl, rfl⟩
        case isFalse hr =>
          split at h
          case isTrue hlead => exact .inr ⟨⟨by omega, hlead⟩, h⟩
          case isFalse => cases h
    case h_2 => cases h
  · rintro ⟨a, b, c, d, n, tail, hn, rfl, ⟨hr, rfl, rfl⟩ | ⟨hlead, ht⟩⟩
    · simp only [numeric, hn, if_pos hr]
    · simp only [numeric, hn, if_neg (show ¬ (n < 0xD800 ∨ 0xE000 ≤ n) by omega), if_pos hlead.2, ht]

theorem next_iff {s rest : List Char} {x : Char} :
    next s = some (x, rest) ↔ ∃ spelled, Item spelled x ∧ s = spelled ++ rest := by
  constructor
  · intro h
    cases s with
    | nil => cases h
    | cons c s =>
      rw [next] at h
      split at h
      case isTrue => cases h
      case isFalse hq =>
      split at h
      case isTrue hb =>
        obtain rfl : c = escape := toNat_inj hb
        cases s with
        | nil => cases h
        | cons e s =>
          rw [escaped] at h
          split at h
          case isTrue hu =>
            obtain ⟨a, b, c, d, n, tail, hn, rfl, ⟨hr, rfl, rfl⟩ | ⟨hlead, ht⟩⟩ := numeric_iff.mp h
            · exact ⟨_, .scalar hn hr, by rw [hu]; rfl⟩
            · obtain ⟨a', b', c', d', low, hl, htrail, rfl, rfl⟩ := trailing_iff.mp ht
              exact ⟨_, .pair hn hl hlead htrail, by rw [hu]; rfl⟩
          case isFalse hu =>
            obtain ⟨y, hy, he⟩ := Option.map_eq_some_iff.mp h
            obtain ⟨rfl, rfl⟩ := Prod.mk.inj he
            exact ⟨_, .short hy, rfl⟩
      case isFalse hb =>
      split at h
      case isTrue => cases h
      case isFalse hp =>
        obtain ⟨rfl, rfl⟩ := Prod.mk.inj (Option.some.inj h)
        exact ⟨[c], .plain (by omega) hq hb, rfl⟩
  · rintro ⟨spelled, hi, rfl⟩
    have hesc : escape.toNat = 0x5C := rfl
    cases hi with
    | plain printable quote escape =>
      simp only [List.singleton_append, next, if_neg quote, if_neg escape,
        if_neg (Nat.not_lt.mpr printable)]
    | @short e _ h =>
      have hu : e ≠ 'u' := by
        rintro rfl
        cases h
      simp [next, hesc, escaped, hu, h]
    | scalar h range =>
      simp only [List.cons_append, List.nil_append, next, hesc, escaped, if_true, Nat.reduceEqDiff,
        if_false]
      exact numeric_iff.mpr ⟨_, _, _, _, _, _, h, rfl, .inl ⟨range, rfl, rfl⟩⟩
    | pair h h' lead trail =>
      simp only [List.cons_append, List.nil_append, next, hesc, escaped, if_true, Nat.reduceEqDiff,
        if_false]
      exact numeric_iff.mpr ⟨_, _, _, _, _, _, h, rfl,
        .inr ⟨lead, trailing_iff.mpr ⟨_, _, _, _, _, h', trail, rfl, rfl⟩⟩⟩

/-- The text of a string up to the quotation mark at its end. -/
def unescape : Nat → List Char → Option (List Char)
  | 0, _ => none
  | n + 1, s =>
    if s = [quotation] then some []
    else
      match next s with
      | none => none
      | some (c, rest) => (unescape n rest).map (c :: ·)

theorem Item.length_pos {spelled : List Char} {c : Char} (h : Item spelled c) :
    0 < spelled.length := by
  cases h <;> simp

theorem Item.ne_quotation {spelled rest : List Char} {c : Char} (h : Item spelled c) :
    spelled ++ rest ≠ [quotation] := by
  intro he
  have hn : next (spelled ++ rest) = some (c, rest) := next_iff.mpr ⟨spelled, h, rfl⟩
  rw [he] at hn
  cases hn

theorem unescape_iff {n : Nat} {s text : List Char} (hn : s.length ≤ n) :
    unescape n s = some text ↔ ∃ body, Chars body text ∧ s = body ++ [quotation] := by
  induction n generalizing s text with
  | zero =>
    have hs : s = [] := List.eq_nil_of_length_eq_zero (Nat.le_zero.mp hn)
    simp [unescape, hs]
  | succ n ih =>
    rw [unescape]
    split
    case isTrue hs =>
      constructor
      · intro h
        obtain rfl := Option.some.inj h
        exact ⟨[], .nil, hs⟩
      · rintro ⟨body, hb, rfl⟩
        cases hb with
        | nil => rfl
        | cons hi => exact absurd (hs.symm ▸ List.append_assoc ..).symm hi.ne_quotation
    case isFalse hs =>
      constructor
      · intro h
        split at h
        case h_1 => cases h
        case h_2 c rest hc =>
          obtain ⟨more, hm, rfl⟩ := Option.map_eq_some_iff.mp h
          obtain ⟨spelled, hi, rfl⟩ := next_iff.mp hc
          have hpos := hi.length_pos
          rw [List.length_append] at hn
          obtain ⟨body, hb, rfl⟩ := (ih (by omega)).mp hm
          exact ⟨spelled ++ body, .cons hi hb, (List.append_assoc ..).symm⟩
      · rintro ⟨body, hb, rfl⟩
        cases hb with
        | nil => exact absurd rfl hs
        | @cons spelled body text c hi hb =>
          have hc : next (spelled ++ body ++ [quotation]) = some (c, body ++ [quotation]) :=
            next_iff.mpr ⟨spelled, hi, List.append_assoc ..⟩
          have hpos := hi.length_pos
          simp only [List.length_append] at hn
          have hrest : unescape n (body ++ [quotation]) = some text :=
            (ih (by simp only [List.length_append]; omega)).mpr ⟨body, hb, rfl⟩
          simp only [hc, hrest, Option.map_some]

/-- The text of a string token. -/
def decodeString (token : List UInt8) : Option String :=
  match (String.fromUTF8? ⟨token.toArray⟩).map String.toList with
  | some (c :: rest) =>
    if c = quotation then (unescape rest.length rest).map String.ofList else none
  | _ => none

theorem toByteArray_utf8 (chars : List Char) :
    (String.ofList chars).toByteArray = ⟨(utf8 chars).toArray⟩ := by
  rw [String.toByteArray_ofList, List.utf8Encode]
  exact ByteArray.ext List.data_toByteArray

theorem fromUTF8_iff {token : List UInt8} {chars : List Char} :
    (String.fromUTF8? ⟨token.toArray⟩).map String.toList = some chars ↔ token = utf8 chars := by
  constructor
  · intro h
    obtain ⟨s, hs, rfl⟩ := Option.map_eq_some_iff.mp h
    have hbytes : s.toByteArray = ⟨token.toArray⟩ := by
      simp only [String.fromUTF8?] at hs
      split at hs
      case isTrue hv =>
        obtain rfl := Option.some.inj hs
        rfl
      case isFalse => cases hs
    rw [← String.ofList_toList (s := s), toByteArray_utf8] at hbytes
    simpa using hbytes.symm
  · rintro rfl
    have hv : (⟨(utf8 chars).toArray⟩ : ByteArray).IsValidUTF8 := by
      rw [← toByteArray_utf8]
      exact (String.ofList chars).isValidUTF8
    have hs : String.fromUTF8 ⟨(utf8 chars).toArray⟩ hv = String.ofList chars :=
      String.toByteArray_inj.mp (toByteArray_utf8 chars).symm
    rw [String.fromUTF8?, dif_pos hv, hs, Option.map_some, String.toList_ofList]

theorem decodeString_iff {token : List UInt8} {text : String} :
    decodeString token = some text ↔ IsString text token := by
  unfold decodeString
  constructor
  · intro h
    split at h
    case h_1 c rest hc =>
      split at h
      case isTrue hq =>
        obtain ⟨chars, hu, rfl⟩ := Option.map_eq_some_iff.mp h
        obtain ⟨body, hb, rfl⟩ := (unescape_iff le_rfl).mp hu
        rw [IsString, String.toList_ofList]
        rw [hq] at hc
        exact ⟨body, hb, fromUTF8_iff.mp hc⟩
      case isFalse => cases h
    case h_2 => cases h
  · rintro ⟨body, hb, ht⟩
    rw [fromUTF8_iff.mpr ht]
    simp only [if_true, (unescape_iff le_rfl).mpr ⟨body, hb, rfl⟩, Option.map_some,
      String.ofList_toList]

/-! Numbers and literals. -/

/-- The digits of an exponent after its mark. -/
def isExponentDigits (s : List UInt8) : Bool := !s.isEmpty && s.all isDigit

/-- The end of a number from its exponent on. -/
def isExponentEnd : List UInt8 → Bool
  | [] => true
  | mark :: rest =>
    isMark mark &&
      match rest with
      | [] => false
      | b :: tail => isExponentDigits (if b = plus ∨ b = minus then tail else rest)

/-- The end of a number from its point on. -/
def isFractionEnd : List UInt8 → Bool
  | [] => true
  | b :: rest =>
    if b = point then
      !(rest.takeWhile isDigit).isEmpty && isExponentEnd (rest.dropWhile isDigit)
    else isExponentEnd (b :: rest)

/-- A number without its sign. -/
def isUnsigned (s : List UInt8) : Bool :=
  let whole := s.takeWhile isDigit
  !whole.isEmpty && (whole.head? != some zero || whole.length == 1) &&
    isFractionEnd (s.dropWhile isDigit)

def isNumber : List UInt8 → Bool
  | [] => false
  | b :: rest => if b = minus then isUnsigned rest else isUnsigned (b :: rest)

/-- The tree of a token that is neither a string nor a container. -/
def decodeScalar (token : List UInt8) : Option Tree :=
  if token = nullToken then some .null
  else if token = boolToken true then some (.bool true)
  else if token = boolToken false then some (.bool false)
  else if isNumber token then some (.number token)
  else none

theorem takeWhile_digits {digits rest : List UInt8} (hd : ∀ b ∈ digits, isDigit b = true)
    (hr : ∀ b ∈ rest.head?, isDigit b = false) :
    (digits ++ rest).takeWhile isDigit = digits ∧ (digits ++ rest).dropWhile isDigit = rest := by
  rw [List.takeWhile_append_of_pos hd, List.dropWhile_append_of_pos hd]
  cases rest with
  | nil => simp
  | cons b rest => simp [hr b rfl]

theorem isExponentDigits_iff {s : List UInt8} : isExponentDigits s = true ↔ Digits s := by
  simp [isExponentDigits, Digits]

theorem isExponentEnd_iff {s : List UInt8} :
    isExponentEnd s = true ↔ ∃ e : Option Exponent, s = e.elim [] Exponent.spelling := by
  constructor
  · intro h
    cases s with
    | nil => exact ⟨none, rfl⟩
    | cons mark rest =>
      cases rest with
      | nil => simp [isExponentEnd] at h
      | cons b tail =>
        simp only [isExponentEnd, Bool.and_eq_true, isExponentDigits_iff] at h
        obtain ⟨hmark, h⟩ := h
        split at h
        case isTrue hb =>
          exact ⟨some ⟨mark, some b, tail, hmark, fun x hx => Option.mem_some_iff.mp hx ▸ hb, h⟩, rfl⟩
        case isFalse => exact ⟨some ⟨mark, none, b :: tail, hmark, nofun, h⟩, rfl⟩
  · rintro ⟨e, rfl⟩
    cases e with
    | none => rfl
    | some e =>
      obtain ⟨mark, sign, digits, hmark, hsign, hdigits⟩ := e
      simp only [Option.elim_some, Exponent.spelling]
      cases sign with
      | some b =>
        simp only [Option.toList_some, List.singleton_append, isExponentEnd, hmark, Bool.true_and,
          if_pos (hsign b rfl), isExponentDigits_iff]
        exact hdigits
      | none =>
        obtain ⟨b, tail, rfl⟩ := List.exists_cons_of_ne_nil hdigits.1
        have hb : ¬ (b = plus ∨ b = minus) := by
          have hdigit := hdigits.2 b List.mem_cons_self
          rintro (rfl | rfl) <;> cases hdigit
        simp only [Option.toList_none, List.nil_append, isExponentEnd, hmark, Bool.true_and,
          if_neg hb, isExponentDigits_iff]
        exact hdigits

theorem exponent_head (e : Option Exponent) : ∀ b ∈ (e.elim [] Exponent.spelling).head?,
    isDigit b = false ∧ b ≠ point := by
  intro b hb
  cases e with
  | none => cases hb
  | some e =>
    obtain rfl : e.mark = b := by simpa [Exponent.spelling] using hb
    have hmark := e.isMark
    simp only [isMark, Bool.or_eq_true, beq_iff_eq] at hmark
    rcases hmark with h | h <;> rw [h] <;> exact ⟨rfl, nofun⟩

theorem isFractionEnd_iff {s : List UInt8} : isFractionEnd s = true ↔
    ∃ (f : Option (List UInt8)) (e : Option Exponent), (∀ digits ∈ f, Digits digits) ∧
      s = (f.elim [] fun digits => point :: digits) ++ e.elim [] Exponent.spelling := by
  constructor
  · intro h
    cases s with
    | nil => exact ⟨none, none, nofun, rfl⟩
    | cons b rest =>
      rw [isFractionEnd] at h
      split at h
      case isTrue hb =>
        obtain ⟨hd, h⟩ := (Bool.and_eq_true _ _).mp h
        obtain ⟨e, he⟩ := isExponentEnd_iff.mp h
        refine ⟨some (rest.takeWhile isDigit), e, fun digits hx => ?_, ?_⟩
        · obtain rfl := Option.mem_some_iff.mp hx
          exact ⟨by simpa using hd, fun x hx => List.mem_takeWhile_imp hx⟩
        · rw [← he, hb, Option.elim_some, List.cons_append, List.takeWhile_append_dropWhile]
      case isFalse =>
        obtain ⟨e, he⟩ := isExponentEnd_iff.mp h
        exact ⟨none, e, nofun, he⟩
  · rintro ⟨f, e, hf, rfl⟩
    have he : isExponentEnd (e.elim [] Exponent.spelling) = true := isExponentEnd_iff.mpr ⟨e, rfl⟩
    have hhead := exponent_head e
    cases f with
    | none =>
      simp only [Option.elim_none, List.nil_append]
      generalize e.elim [] Exponent.spelling = s at he hhead
      cases s with
      | nil => rfl
      | cons b rest =>
        rw [isFractionEnd, if_neg (hhead b rfl).2]
        exact he
    | some digits =>
      obtain ⟨hne, hdigits⟩ := hf digits rfl
      obtain ⟨ht, hdrop⟩ := takeWhile_digits hdigits fun b hb => (hhead b hb).1
      rw [Option.elim_some, List.cons_append, isFractionEnd, if_pos rfl, ht, hdrop, he]
      simpa using hne

theorem isUnsigned_iff {s : List UInt8} : isUnsigned s = true ↔
    ∃ n : Number, n.negative = false ∧ n.spelling = s := by
  constructor
  · intro h
    simp only [isUnsigned, Bool.and_eq_true] at h
    obtain ⟨⟨hne, hzero⟩, hend⟩ := h
    obtain ⟨f, e, hf, hs⟩ := isFractionEnd_iff.mp hend
    have hdigits : Digits (s.takeWhile isDigit) :=
      ⟨by simpa using hne, fun b hb => List.mem_takeWhile_imp hb⟩
    have hlead : (s.takeWhile isDigit).head? = some zero → (s.takeWhile isDigit).length = 1 := by
      intro hz
      simpa [hz] using hzero
    refine ⟨⟨false, s.takeWhile isDigit, f, e, hdigits, hlead, hf⟩, rfl, ?_⟩
    simp only [Number.spelling, Bool.false_eq_true, if_false, List.nil_append, List.append_assoc, ← hs,
      List.takeWhile_append_dropWhile]
  · rintro ⟨n, hn, rfl⟩
    have hrest : ∀ b ∈ ((n.fraction.elim [] fun digits => point :: digits) ++
        n.exponent.elim [] Exponent.spelling).head?, isDigit b = false := by
      intro b hb
      cases hf : n.fraction with
      | none =>
        rw [hf] at hb
        exact (exponent_head n.exponent b hb).1
      | some digits =>
        rw [hf] at hb
        obtain rfl : point = b := by simpa using hb
        rfl
    obtain ⟨ht, hd⟩ := takeWhile_digits n.isWhole.2 hrest
    have hs : n.spelling = n.whole ++ ((n.fraction.elim [] fun digits => point :: digits) ++
        n.exponent.elim [] Exponent.spelling) := by
      simp [Number.spelling, hn]
    rw [hs]
    simp only [isUnsigned, ht, hd, Bool.and_eq_true]
    refine ⟨⟨by simpa using n.isWhole.1, ?_⟩,
      isFractionEnd_iff.mpr ⟨n.fraction, n.exponent, n.isFraction, rfl⟩⟩
    by_cases hz : n.whole.head? = some zero
    · simp [n.noZero hz]
    · simp [hz]

theorem isNumber_iff {token : List UInt8} : isNumber token = true ↔ IsNumber token := by
  constructor
  · intro h
    cases token with
    | nil => cases h
    | cons b rest =>
      rw [isNumber] at h
      split at h
      case isTrue hb =>
        obtain ⟨n, hn, rfl⟩ := isUnsigned_iff.mp h
        refine ⟨{ n with negative := true }, ?_⟩
        simp [Number.spelling, hn, hb]
      case isFalse =>
        obtain ⟨n, -, hs⟩ := isUnsigned_iff.mp h
        exact ⟨n, hs⟩
  · rintro ⟨n, rfl⟩
    cases hn : n.negative with
    | true =>
      have hs : n.spelling = minus :: { n with negative := false }.spelling := by
        simp [Number.spelling, hn]
      rw [hs, isNumber, if_pos rfl]
      exact isUnsigned_iff.mpr ⟨{ n with negative := false }, rfl, rfl⟩
    | false =>
      obtain ⟨b, tail, hw⟩ := List.exists_cons_of_ne_nil n.isWhole.1
      have hb : b ≠ minus := by
        have hdigit := n.isWhole.2 b (hw ▸ List.mem_cons_self)
        rintro rfl
        cases hdigit
      have hu : isUnsigned n.spelling = true := isUnsigned_iff.mpr ⟨n, hn, rfl⟩
      have hs : n.spelling = b :: (tail ++ ((n.fraction.elim [] fun digits => point :: digits) ++
          n.exponent.elim [] Exponent.spelling)) := by
        simp [Number.spelling, hn, hw]
      rw [hs] at hu ⊢
      rwa [isNumber, if_neg hb]

theorem decodeScalar_iff {token : List UInt8} {t : Tree} : decodeScalar token = some t ↔
    t = .null ∧ token = nullToken ∨ (∃ b, t = .bool b ∧ token = boolToken b) ∨
      t = .number token ∧ IsNumber token := by
  constructor
  · intro h
    unfold decodeScalar at h
    split_ifs at h with hnull htrue hfalse hnumber <;> obtain rfl := Option.some.inj h
    · exact .inl ⟨rfl, hnull⟩
    · exact .inr (.inl ⟨true, rfl, htrue⟩)
    · exact .inr (.inl ⟨false, rfl, hfalse⟩)
    · exact .inr (.inr ⟨rfl, isNumber_iff.mp hnumber⟩)
  · rintro (⟨rfl, rfl⟩ | ⟨b, rfl, rfl⟩ | ⟨rfl, hn⟩)
    · rfl
    · cases b <;> rfl
    · have hnumber := isNumber_iff.mpr hn
      have hother : ∀ {other : List UInt8}, isNumber other = false → token ≠ other := by
        rintro other ho rfl
        exact absurd (ho.symm.trans hnumber) nofun
      rw [decodeScalar, if_neg (hother rfl), if_neg (hother rfl), if_neg (hother rfl), if_pos hnumber]

/-- Where a scalar stops. -/
def isStop (b : UInt8) : Bool := isSpace b || b == comma || b == closeBracket || b == closeBrace

/-- The bytes of numbers. -/
def isNumeric (b : UInt8) : Bool := isDigit b || isMark b || b == minus || b == plus || b == point

theorem Number.isNumeric (n : Number) : ∀ b ∈ n.spelling, isNumeric b = true := by
  have digits : ∀ {s : List UInt8}, Digits s → ∀ b ∈ s, Json.isNumeric b = true := by
    intro s hs b hb
    simp [Json.isNumeric, hs.2 b hb]
  intro b hb
  simp only [Number.spelling, List.mem_append] at hb
  rcases hb with ((hb | hb) | hb) | hb
  · cases hn : n.negative with
    | true =>
      obtain rfl : b = minus := by simpa [hn] using hb
      rfl
    | false => simp [hn] at hb
  · exact digits n.isWhole b hb
  · cases hf : n.fraction with
    | none => simp [hf] at hb
    | some f =>
      rw [hf, Option.elim_some, List.mem_cons] at hb
      rcases hb with rfl | hb
      · rfl
      · exact digits (n.isFraction f hf) b hb
  · cases he : n.exponent with
    | none => simp [he] at hb
    | some e =>
      rw [he, Option.elim_some, Exponent.spelling, List.mem_cons, List.mem_append] at hb
      rcases hb with rfl | hb | hb
      · simp [Json.isNumeric, e.isMark]
      · rcases e.isSign b (by simpa using hb) with rfl | rfl <;> rfl
      · exact digits e.isDigits b hb

theorem isStop_of_isNumeric {b : UInt8} (hb : isNumeric b = true) : isStop b = false := by
  have hall : ∀ n : Fin 256, isNumeric (UInt8.ofFin n) = true → isStop (UInt8.ofFin n) = false := by
    decide +kernel
  exact hall b.toFin hb

theorem decodeScalar_bytes {token : List UInt8} {t : Tree} (h : decodeScalar token = some t) :
    token ≠ [] ∧ (∀ b ∈ token, isStop b = false) ∧
      ∀ b ∈ token, b ≠ quote ∧ b ≠ openBracket ∧ b ≠ openBrace := by
  rcases decodeScalar_iff.mp h with ⟨-, rfl⟩ | ⟨b, -, rfl⟩ | ⟨-, n, rfl⟩
  · exact ⟨nofun, by decide +kernel, by decide +kernel⟩
  · cases b <;> exact ⟨nofun, by decide +kernel, by decide +kernel⟩
  · refine ⟨?_, fun b hb => ?_, fun b hb => ?_⟩
    · simp [Number.spelling, n.isWhole.1]
    · exact isStop_of_isNumeric (n.isNumeric b hb)
    · have hb := n.isNumeric b hb
      refine ⟨?_, ?_, ?_⟩ <;> rintro rfl <;> cases hb

end Json
