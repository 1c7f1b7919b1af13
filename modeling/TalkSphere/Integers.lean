import TalkSphere.Document
import TalkSphere.JsonNumbers

/-! Exact unsigned integers from the tokens of JSON numbers, in every spelling. -/

namespace TalkSphere.Board

open Json (digit natural isDigit isMark zero plus minus point)

/-! Machine arithmetic. -/

def checkedI64 (x : Int) : Option Int := if -2 ^ 63 ≤ x ∧ x < 2 ^ 63 then some x else none

def checkedU64 (n : Nat) : Option Nat := if n < 2 ^ 64 then some n else none

/-- The cast of a length, which must not wrap. -/
def lengthAsI64 (n : Nat) : Except Stop Int :=
  if n < 2 ^ 63 then .ok n else .error .outOfRange

/-- The digits of a signed integer; `sign` is that of every term added. -/
def parseDigits (sign : Int) : List UInt8 → Int → Option Int
  | [], acc => some acc
  | b :: rest, acc =>
    if isDigit b then do
      let acc ← checkedI64 (acc * 10)
      let acc ← checkedI64 (acc + sign * digit b)
      parseDigits sign rest acc
    else none

def parseI64 : List UInt8 → Option Int
  | [] => none
  | b :: rest =>
    if (b = plus ∨ b = minus) ∧ rest = [] then none
    else if b = minus then parseDigits (-1) rest 0
    else if b = plus then parseDigits 1 rest 0
    else parseDigits 1 (b :: rest) 0

/-! The reader. -/

/-- A text around the first byte that meets `p`. -/
def splitOnce (p : UInt8 → Bool) (s : List UInt8) : Option (List UInt8 × List UInt8) :=
  match s.dropWhile (!p ·) with
  | [] => none
  | _ :: rest => some (s.takeWhile (!p ·), rest)

def addDigit (amount : Nat) (b : UInt8) : Except Stop (Option Nat) :=
  match checkedU64 (amount * 10) with
  | none => .ok none
  | some amount => if b < zero then .error .outOfRange else .ok (checkedU64 (amount + digit b))

/-- The loop over the digits. -/
def accumulate : List UInt8 → Nat → Except Stop (Option Nat)
  | [], amount => .ok (some amount)
  | b :: rest, amount => do
    match ← addDigit amount b with
    | none => .ok none
    | some amount => accumulate rest amount

/-- The loop over the zeros behind the digits. -/
def scale : Nat → Nat → Option Nat
  | 0, amount => some amount
  | zeros + 1, amount => (checkedU64 (amount * 10)).bind (scale zeros)

/-- The amount of at most twenty digits, the zeros among them. -/
def amountOf (digits : List UInt8) (zeros : Nat) : Except Stop (Option Nat) :=
  match checkedAdd digits.length zeros with
  | none => .ok none
  | some n => do
    if n > 20 then .ok none
    else
      let amount ← accumulate digits 0
      .ok (amount.bind (scale zeros))

def sliceOf (bytes : List UInt8) (lo hi : Nat) : Except Stop (List UInt8) :=
  match Codec.slice? bytes lo hi with
  | some slice => .ok slice
  | none => .error .outOfRange

/-- The amount of digits that stand `shift` places before the point. -/
def shifted (digits : List UInt8) (shift : Int) : Except Stop (Option Nat) :=
  if shift < 0 then
    match checkedI64 (-shift) with
    | none => .ok none
    | some remove =>
      if digits.length < remove.toNat then .ok none
      else do
        let keep := digits.length - remove.toNat
        let removed ← sliceOf digits keep digits.length
        if !removed.all (· == zero) then .ok none
        else
          let digits ← sliceOf digits 0 keep
          amountOf digits 0
  else amountOf digits shift.toNat

/-- The amount of digits of which `fraction` stand behind the point. -/
def placed (digits : List UInt8) (exponent : Int) (fraction : Nat) : Except Stop (Option Nat) := do
  let fraction ← lengthAsI64 fraction
  match checkedI64 (exponent - fraction) with
  | none => .ok none
  | some shift => shifted digits shift

/-- A token without its sign, and whether it had one. -/
def stripMinus : List UInt8 → Bool × List UInt8
  | [] => (false, [])
  | b :: rest => if b = minus then (true, rest) else (false, b :: rest)

def integerToken (token : List UInt8) : Except Stop (Option Nat) :=
  let (negative, token) := stripMinus token
  let (mantissa, exponent) := (splitOnce isMark token).getD (token, [zero])
  let digits := mantissa.filter (· != point)
  let digits := digits.dropWhile (· == zero)
  if digits = [] then .ok (some 0)
  else if negative then .ok none
  else
    match parseI64 exponent with
    | none => .ok none
    | some exponent =>
      placed digits exponent ((splitOnce (· == point) mantissa).elim 0 (·.2.length))

def integer : Json.Tree → Except Stop (Option Nat)
  | .number token => integerToken token
  | _ => .ok none

/-! Specifications of the parts. -/

theorem splitOnce_append {p : UInt8 → Bool} {a c : List UInt8} {m : UInt8}
    (ha : ∀ b ∈ a, p b = false) (hm : p m = true) : splitOnce p (a ++ m :: c) = some (a, c) := by
  have ha' : ∀ b ∈ a, (!p b) = true := fun b hb => by rw [ha b hb]; rfl
  rw [splitOnce, List.dropWhile_append_of_pos ha', List.takeWhile_append_of_pos ha']
  simp [hm]

theorem splitOnce_none {p : UInt8 → Bool} {a : List UInt8} (ha : ∀ b ∈ a, p b = false) :
    splitOnce p a = none := by
  have hdrop : a.dropWhile (!p ·) = [] := by
    rw [List.dropWhile_eq_nil_iff]
    exact fun b hb => by rw [ha b hb]; rfl
  rw [splitOnce, hdrop]

theorem checkedI64_some {x y : Int} : checkedI64 x = some y ↔ x = y ∧ -2 ^ 63 ≤ x ∧ x < 2 ^ 63 := by
  unfold checkedI64
  split
  case isTrue h => exact ⟨fun hy => ⟨Option.some.inj hy, h⟩, fun hy => congrArg some hy.1⟩
  case isFalse h => exact ⟨nofun, fun hy => absurd hy.2 h⟩

theorem checkedI64_none {x : Int} : checkedI64 x = none ↔ x < -2 ^ 63 ∨ 2 ^ 63 ≤ x := by
  unfold checkedI64
  split <;> simp <;> omega

theorem checkedU64_some {n k : Nat} : checkedU64 n = some k ↔ n = k ∧ n < 2 ^ 64 := by
  unfold checkedU64
  split
  case isTrue h => exact ⟨fun hk => ⟨Option.some.inj hk, h⟩, fun hk => congrArg some hk.1⟩
  case isFalse h => exact ⟨nofun, fun hk => absurd hk.2 h⟩

theorem checkedU64_none {n : Nat} : checkedU64 n = none ↔ 2 ^ 64 ≤ n := by
  unfold checkedU64
  split <;> simp <;> omega

theorem checkedU64_none_of_le {n m : Nat} (hle : n ≤ m) (h : checkedU64 n = none) :
    checkedU64 m = none :=
  checkedU64_none.mpr ((checkedU64_none.mp h).trans hle)

theorem checkedI64_none_of_le {sign x y : Int} (hsign : sign = 1 ∨ sign = -1)
    (hx : 0 ≤ sign * x) (hle : sign * x ≤ sign * y) (h : checkedI64 x = none) :
    checkedI64 y = none := by
  rw [checkedI64_none] at h ⊢
  rcases hsign with rfl | rfl <;> omega

theorem parseDigits_eq {sign : Int} (hsign : sign = 1 ∨ sign = -1) {digits : List UInt8}
    (hd : ∀ b ∈ digits, isDigit b = true) {acc : Int} (hacc : 0 ≤ sign * acc)
    (hrange : checkedI64 acc = some acc) :
    parseDigits sign digits acc = checkedI64 (acc * 10 ^ digits.length + sign * natural digits) := by
  induction digits generalizing acc with
  | nil => simp [parseDigits, Json.natural_nil, hrange]
  | cons b digits ih =>
    obtain ⟨hb, hd⟩ := List.forall_mem_cons.mp hd
    have hnext : acc * 10 ^ (b :: digits).length + sign * natural (b :: digits) =
        (acc * 10 + sign * digit b) * 10 ^ digits.length + sign * natural digits := by
      rw [Json.natural_cons, List.length_cons]
      push_cast
      ring
    have hsquare : sign * sign = 1 := by rcases hsign with rfl | rfl <;> rfl
    have hterm : ∀ n : Nat, sign * (sign * n) = n := fun n => by rw [← mul_assoc, hsquare, one_mul]
    have hmul : 0 ≤ sign * (acc * 10) := by rw [← mul_assoc]; positivity
    have hstep : sign * (acc * 10) ≤ sign * (acc * 10 + sign * digit b) := by
      rw [mul_add, hterm]
      omega
    have hfinal : sign * (acc * 10 + sign * digit b) ≤
        sign * ((acc * 10 + sign * digit b) * 10 ^ digits.length + sign * natural digits) := by
      have hpow : (1 : Int) ≤ 10 ^ digits.length := one_le_pow₀ (by norm_num)
      have hle := le_mul_of_one_le_right (hmul.trans hstep) hpow
      generalize acc * 10 + sign * (digit b : Int) = x at hle
      rw [mul_add sign (x * _), hterm, ← mul_assoc]
      omega
    rw [parseDigits, if_pos hb, hnext]
    cases hten : checkedI64 (acc * 10) with
    | none =>
      exact (checkedI64_none_of_le hsign hmul (hstep.trans hfinal) hten).symm
    | some ten =>
      obtain rfl := (checkedI64_some.mp hten).1
      simp only [Option.bind_eq_bind, Option.bind_some]
      cases hsum : checkedI64 (acc * 10 + sign * digit b) with
      | none => exact (checkedI64_none_of_le hsign (hmul.trans hstep) hfinal hsum).symm
      | some sum =>
        obtain rfl := (checkedI64_some.mp hsum).1
        exact ih hd (hmul.trans hstep) hsum

theorem parseI64_exponent (e : Json.Exponent) :
    parseI64 (e.sign.toList ++ e.digits) = checkedI64 e.value := by
  obtain ⟨b, tail, hcons⟩ := List.exists_cons_of_ne_nil e.isDigits.1
  have hzero : checkedI64 0 = some 0 := rfl
  have hplus : ∀ {digits : List UInt8}, (∀ b ∈ digits, isDigit b = true) →
      parseDigits 1 digits 0 = checkedI64 (natural digits) := by
    intro digits hd
    rw [parseDigits_eq (.inl rfl) hd (by simp) hzero]
    simp
  cases hs : e.sign with
  | none =>
    have hb : b ≠ plus ∧ b ≠ minus := by
      have hdigit := e.isDigits.2 b (hcons ▸ List.mem_cons_self)
      constructor <;> rintro rfl <;> cases hdigit
    have hvalue : e.value = natural (b :: tail) := by simp [Json.Exponent.value, hs, hcons]
    rw [hvalue, ← hplus (hcons ▸ e.isDigits.2)]
    simp [parseI64, hcons, hb]
  | some c =>
    have htail : e.digits ≠ [] := e.isDigits.1
    rcases e.isSign c hs with rfl | rfl
    · have hvalue : e.value = natural e.digits := by
        simp [Json.Exponent.value, hs, show plus ≠ minus by decide]
      rw [hvalue, ← hplus e.isDigits.2]
      simp [parseI64, htail, show plus ≠ minus by decide]
    · have hvalue : e.value = -(natural e.digits : Int) := by simp [Json.Exponent.value, hs]
      have hacc : 0 ≤ (-1 : Int) * 0 := by simp
      have hdigits := parseDigits_eq (.inr rfl) e.isDigits.2 hacc hzero
      rw [hvalue, ← neg_one_mul, ← zero_add (-1 * _), ← zero_mul (10 ^ e.digits.length), ← hdigits]
      simp [parseI64, htail]

theorem accumulate_eq {digits : List UInt8} (hd : ∀ b ∈ digits, isDigit b = true) {amount : Nat}
    (ha : checkedU64 amount = some amount) :
    accumulate digits amount = .ok (checkedU64 (amount * 10 ^ digits.length + natural digits)) := by
  induction digits generalizing amount with
  | nil => simp [accumulate, Json.natural_nil, ha]
  | cons b digits ih =>
    obtain ⟨hb, hd⟩ := List.forall_mem_cons.mp hd
    have hnext : amount * 10 ^ (b :: digits).length + natural (b :: digits) =
        (amount * 10 + digit b) * 10 ^ digits.length + natural digits := by
      rw [Json.natural_cons, List.length_cons]
      ring
    have hgrow : amount * 10 + digit b ≤
        (amount * 10 + digit b) * 10 ^ digits.length + natural digits :=
      (Nat.le_mul_of_pos_right _ (by positivity)).trans (Nat.le_add_right _ _)
    have hdigit : ¬ b < zero := by
      simp only [isDigit, Bool.and_eq_true, decide_eq_true_eq] at hb
      exact UInt8.not_lt.mpr hb.1
    rw [accumulate, addDigit, hnext]
    cases hten : checkedU64 (amount * 10) with
    | none =>
      rw [checkedU64_none_of_le ((Nat.le_add_right _ _).trans hgrow) hten]
      rfl
    | some ten =>
      obtain rfl := (checkedU64_some.mp hten).1
      simp only [if_neg hdigit, bind, Except.bind]
      cases hsum : checkedU64 (amount * 10 + digit b) with
      | none => rw [checkedU64_none_of_le hgrow hsum]
      | some sum =>
        obtain rfl := (checkedU64_some.mp hsum).1
        exact ih hd hsum

theorem scale_eq {zeros amount : Nat} (ha : checkedU64 amount = some amount) :
    scale zeros amount = checkedU64 (amount * 10 ^ zeros) := by
  induction zeros generalizing amount with
  | zero => rw [scale, pow_zero, mul_one, ha]
  | succ zeros ih =>
    have hnext : amount * 10 ^ (zeros + 1) = amount * 10 * 10 ^ zeros := by ring
    rw [scale, hnext]
    cases hten : checkedU64 (amount * 10) with
    | none => exact (checkedU64_none_of_le (Nat.le_mul_of_pos_right _ (by positivity)) hten).symm
    | some ten =>
      obtain rfl := (checkedU64_some.mp hten).1
      exact ih hten

theorem amountOf_eq {b : UInt8} {a : List UInt8} (hd : ∀ x ∈ b :: a, isDigit x = true)
    (hb : b ≠ zero) (zeros : Nat) :
    amountOf (b :: a) zeros = .ok (checkedU64 (natural (b :: a) * 10 ^ zeros)) := by
  have hlarge : 20 < (b :: a).length + zeros →
      checkedU64 (natural (b :: a) * 10 ^ zeros) = none := by
    intro hlen
    refine checkedU64_none.mpr ?_
    rw [List.length_cons] at hlen
    calc 2 ^ 64 ≤ 10 ^ 20 := by norm_num
      _ ≤ 10 ^ (a.length + zeros) := Nat.pow_le_pow_right (by norm_num) (by omega)
      _ = 10 ^ a.length * 10 ^ zeros := pow_add ..
      _ ≤ natural (b :: a) * 10 ^ zeros :=
        Nat.mul_le_mul_right _ (Json.natural_ge (hd b List.mem_cons_self) hb)
  rw [amountOf]
  cases hsum : checkedAdd (b :: a).length zeros with
  | none =>
    rw [hlarge]
    have hmax : ¬ (b :: a).length + zeros ≤ usizeMax := fun hle => by
      cases hsum.symm.trans (checkedAdd_some.mpr ⟨rfl, hle⟩)
    simp only [usizeMax] at hmax
    omega
  | some n =>
    obtain ⟨rfl, -⟩ := checkedAdd_some.mp hsum
    by_cases hn : (b :: a).length + zeros > 20
    · simp only [if_pos hn, hlarge hn]
    · have hzero : checkedU64 0 = some 0 := rfl
      simp only [if_neg hn, accumulate_eq hd hzero, Nat.zero_mul, Nat.zero_add, bind, Except.bind]
      cases hdigits : checkedU64 (natural (b :: a)) with
      | none => rw [checkedU64_none_of_le (Nat.le_mul_of_pos_right _ (by positivity)) hdigits]; rfl
      | some amount =>
        obtain rfl := (checkedU64_some.mp hdigits).1
        rw [Option.bind_some, scale_eq hdigits]

theorem sliceOf_eq {bytes : List UInt8} {lo hi : Nat} (h : lo ≤ hi) (hb : hi ≤ bytes.length) :
    sliceOf bytes lo hi = .ok ((bytes.drop lo).take (hi - lo)) := by
  rw [sliceOf, Codec.slice?_eq h hb]

theorem checkedU64_iff {n k : Nat} {p : Prop} (h : p ↔ n = k) :
    checkedU64 n = some k ↔ p ∧ k < 2 ^ 64 := by
  rw [checkedU64_some, h]
  constructor
  · rintro ⟨rfl, hlt⟩
    exact ⟨rfl, hlt⟩
  · rintro ⟨rfl, hlt⟩
    exact ⟨rfl, hlt⟩

theorem whole_append {kept removed : List UInt8} (hr : ∀ x ∈ removed, isDigit x = true) {k : Nat} :
    natural (kept ++ removed) = k * 10 ^ removed.length ↔
      (∀ x ∈ removed, x = zero) ∧ natural kept = k := by
  have hpos : 0 < 10 ^ removed.length := by positivity
  have hlt := Json.natural_lt hr
  rw [← Json.natural_eq_zero hr, Json.natural_append]
  constructor
  · intro h
    have hmod := congrArg (· % 10 ^ removed.length) h
    simp only [Nat.mul_add_mod_self_right, Nat.mul_mod_left, Nat.mod_eq_of_lt hlt] at hmod
    rw [hmod, Nat.add_zero] at h
    exact ⟨hmod, Nat.eq_of_mul_eq_mul_right hpos h⟩
  · rintro ⟨hz, rfl⟩
    rw [hz, Nat.add_zero]

theorem shifted_iff {b : UInt8} {a : List UInt8} (hd : ∀ x ∈ b :: a, isDigit x = true)
    (hb : b ≠ zero) (hlen : (b :: a).length < 2 ^ 63) (shift : Int) :
    ∃ r, shifted (b :: a) shift = .ok r ∧
      ∀ k : Nat, r = some k ↔ (natural (b :: a) : ℚ) * 10 ^ shift = k ∧ k < 2 ^ 64 := by
  have hpos : 0 < natural (b :: a) :=
    lt_of_lt_of_le (by positivity) (Json.natural_ge (hd b List.mem_cons_self) hb)
  by_cases hs : shift < 0
  · have small : (b :: a).length ≤ (-shift).toNat →
        ∀ k : Nat, none = some k ↔ (natural (b :: a) : ℚ) * 10 ^ shift = k ∧ k < 2 ^ 64 := by
      intro hle k
      have hlt : natural (b :: a) < 10 ^ (-shift).toNat :=
        (Json.natural_lt hd).trans_le (Nat.pow_le_pow_right (by norm_num) hle)
      exact ⟨nofun, fun h => absurd h.1 (Json.not_whole_of_lt hpos hs hlt)⟩
    rw [shifted, if_pos hs]
    cases hneg : checkedI64 (-shift) with
    | none =>
      refine ⟨none, rfl, small ?_⟩
      have hout := checkedI64_none.mp hneg
      omega
    | some remove =>
      obtain rfl := (checkedI64_some.mp hneg).1
      by_cases hlt : (b :: a).length < (-shift).toNat
      · exact ⟨none, by simp only [if_pos hlt], small hlt.le⟩
      obtain ⟨keep, hkeep⟩ : ∃ keep, keep = (b :: a).length - (-shift).toNat := ⟨_, rfl⟩
      have hle : keep ≤ (b :: a).length := by omega
      have hcount : ((b :: a).drop keep).length = (-shift).toNat := by
        rw [List.length_drop]
        omega
      have hremoved : ∀ x ∈ (b :: a).drop keep, isDigit x = true :=
        fun x hx => hd x (List.mem_of_mem_drop hx)
      have hwhole : ∀ k : Nat, (natural (b :: a) : ℚ) * 10 ^ shift = k ↔
          (∀ x ∈ (b :: a).drop keep, x = zero) ∧ natural ((b :: a).take keep) = k := by
        intro k
        rw [Json.whole_of_neg hs, ← hcount, ← whole_append hremoved, List.take_append_drop]
      simp only [if_neg hlt, ← hkeep, sliceOf_eq hle le_rfl, sliceOf_eq (Nat.zero_le keep) hle,
        List.drop_zero, Nat.sub_zero, bind, Except.bind]
      rw [List.take_of_length_le (by simp)]
      by_cases hz : ∀ x ∈ (b :: a).drop keep, x = zero
      · obtain ⟨m, rfl⟩ : ∃ m, keep = m + 1 := by
          refine Nat.exists_eq_add_one.mpr (Nat.pos_of_ne_zero fun h0 => hb (hz b ?_))
          simp [h0]
        have hall : ((b :: a).drop (m + 1)).all (· == zero) = true := by
          simpa [List.all_eq_true] using hz
        have hkept : ∀ x ∈ b :: a.take m, isDigit x = true :=
          fun x hx => hd x (List.mem_of_mem_take (i := m + 1) hx)
        refine ⟨checkedU64 (natural (b :: a.take m) * 10 ^ 0), ?_, fun k => ?_⟩
        · simp only [hall, Bool.not_true, Bool.false_eq_true, if_false, List.take_succ_cons]
          exact amountOf_eq hkept hb 0
        · rw [pow_zero, mul_one]
          exact checkedU64_iff ((hwhole k).trans (and_iff_right hz))
      · have hall : ((b :: a).drop keep).all (· == zero) = false := by
          simpa [List.all_eq_false] using hz
        refine ⟨none, by simp only [hall, Bool.not_false, if_true], fun k => ⟨nofun, fun h => ?_⟩⟩
        exact absurd ((hwhole k).mp h.1).1 hz
  · rw [shifted, if_neg hs]
    exact ⟨_, amountOf_eq hd hb shift.toNat,
      fun k => checkedU64_iff (Json.whole_of_nonneg (Int.not_lt.mp hs))⟩

/-! Whole tokens. -/

section

variable (n : Json.Number)

/-- The token behind the sign. -/
def unsigned (n : Json.Number) : List UInt8 :=
  n.whole ++ ((n.fraction.elim [] fun digits => point :: digits) ++
    n.exponent.elim [] Json.Exponent.spelling)

def mantissa (n : Json.Number) : List UInt8 :=
  n.whole ++ n.fraction.elim [] fun digits => point :: digits

theorem isDigit_not_mark {b : UInt8} (h : isDigit b = true) :
    isMark b = false ∧ b ≠ point ∧ b ≠ minus := by
  have hall : ∀ x : Fin 256, isDigit (UInt8.ofFin x) = true → isMark (UInt8.ofFin x) = false ∧
      UInt8.ofFin x ≠ point ∧ UInt8.ofFin x ≠ minus := by decide +kernel
  exact hall b.toFin h

theorem digits_isDigit : ∀ b ∈ n.whole ++ n.fraction.getD [], isDigit b = true := by
  intro b hb
  rcases List.mem_append.mp hb with hb | hb
  · exact n.isWhole.2 b hb
  · cases hf : n.fraction with
    | none => simp [hf] at hb
    | some digits => exact (n.isFraction digits hf).2 b (by simpa [hf] using hb)

theorem mantissa_filter : (mantissa n).filter (· != point) = n.whole ++ n.fraction.getD [] := by
  have hkeep : ∀ {a : List UInt8}, (∀ b ∈ a, isDigit b = true) → a.filter (· != point) = a :=
    fun ha => List.filter_eq_self.mpr fun b hb => by simp [(isDigit_not_mark (ha b hb)).2.1]
  rw [mantissa, List.filter_append, hkeep n.isWhole.2]
  cases hf : n.fraction with
  | none => simp
  | some digits => simp [hkeep (n.isFraction digits hf).2]

theorem mantissa_fraction :
    (splitOnce (· == point) (mantissa n)).elim 0 (·.2.length) = (n.fraction.getD []).length := by
  have hwhole : ∀ b ∈ n.whole, (b == point) = false :=
    fun b hb => by simp [(isDigit_not_mark (n.isWhole.2 b hb)).2.1]
  rw [mantissa]
  cases n.fraction with
  | none => simp [splitOnce_none hwhole]
  | some digits => simp [splitOnce_append hwhole]

theorem mantissa_not_mark : ∀ b ∈ mantissa n, isMark b = false := by
  intro b hb
  by_cases hp : b = point
  · rw [hp]
    rfl
  · have hb : b ∈ (mantissa n).filter (· != point) := List.mem_filter.mpr ⟨hb, by simp [hp]⟩
    rw [mantissa_filter] at hb
    exact (isDigit_not_mark (digits_isDigit n b hb)).1

theorem unsigned_split : ∃ text, (splitOnce isMark (unsigned n)).getD (unsigned n, [zero]) =
    (mantissa n, text) ∧ parseI64 text = checkedI64 (n.exponent.elim 0 Json.Exponent.value) := by
  have hu : unsigned n = mantissa n ++ n.exponent.elim [] Json.Exponent.spelling := by
    simp [unsigned, mantissa]
  rw [hu]
  cases n.exponent with
  | none => exact ⟨[zero], by simp [splitOnce_none (mantissa_not_mark n)], by decide +kernel⟩
  | some e =>
    refine ⟨e.sign.toList ++ e.digits, ?_, parseI64_exponent e⟩
    simp only [Option.elim_some, Json.Exponent.spelling,
      splitOnce_append (mantissa_not_mark n) e.isMark, Option.getD_some]

theorem spelling_eq : n.spelling = (if n.negative then [minus] else []) ++ unsigned n := by
  simp [Json.Number.spelling, unsigned]

theorem integerToken_spelling : integerToken n.spelling =
    let digits := (n.whole ++ n.fraction.getD []).dropWhile (· == zero)
    if digits = [] then .ok (some 0)
    else if n.negative then .ok none
    else
      match checkedI64 (n.exponent.elim 0 Json.Exponent.value) with
      | none => .ok none
      | some exponent => placed digits exponent (n.fraction.getD []).length := by
  obtain ⟨text, hsplit, hparse⟩ := unsigned_split n
  have hsign : stripMinus n.spelling = (n.negative, unsigned n) := by
    obtain ⟨b, tail, hw⟩ := List.exists_cons_of_ne_nil n.isWhole.1
    have hb : b ≠ minus := (isDigit_not_mark (n.isWhole.2 b (hw ▸ List.mem_cons_self))).2.2
    rw [spelling_eq]
    cases n.negative with
    | true => simp [stripMinus]
    | false => simp [stripMinus, unsigned, hw, hb]
  simp only [integerToken, hsign, hsplit, hparse, mantissa_filter, mantissa_fraction]

theorem far_none {b : UInt8} {a : List UInt8} (hd : ∀ x ∈ b :: a, isDigit x = true)
    (hb : b ≠ zero) (hlen : (b :: a).length ≤ 2 ^ 20) {shift : Int}
    (hfar : shift < -2 ^ 62 ∨ 2 ^ 62 ≤ shift) (k : Nat) :
    none = some k ↔ (natural (b :: a) : ℚ) * 10 ^ shift = k ∧ k < 2 ^ 64 := by
  refine ⟨nofun, fun ⟨hk, hlt⟩ => ?_⟩
  have hpos : 0 < natural (b :: a) :=
    lt_of_lt_of_le (by positivity) (Json.natural_ge (hd b List.mem_cons_self) hb)
  rcases hfar with hfar | hfar
  · have hsmall : natural (b :: a) < 10 ^ (-shift).toNat :=
      (Json.natural_lt hd).trans_le (Nat.pow_le_pow_right (by norm_num) (by omega))
    exact absurd hk (Json.not_whole_of_lt hpos (by omega) hsmall)
  · have hlarge : 2 ^ 64 ≤ natural (b :: a) * 10 ^ shift.toNat :=
      calc 2 ^ 64 ≤ 10 ^ 20 := by norm_num
        _ ≤ 10 ^ shift.toNat := Nat.pow_le_pow_right (by norm_num) (by omega)
        _ ≤ natural (b :: a) * 10 ^ shift.toNat := Nat.le_mul_of_pos_left _ hpos
    rw [(Json.whole_of_nonneg (by omega)).mp hk] at hlarge
    exact absurd hlt (Nat.not_lt.mpr hlarge)

theorem placed_iff {b : UInt8} {a : List UInt8} (hd : ∀ x ∈ b :: a, isDigit x = true)
    (hb : b ≠ zero) (hlen : (b :: a).length ≤ 2 ^ 20) {fraction : Nat} (hf : fraction ≤ 2 ^ 20)
    {exponent : Int} (he : checkedI64 exponent = some exponent) :
    ∃ r, placed (b :: a) exponent fraction = .ok r ∧ ∀ k : Nat, r = some k ↔
      (natural (b :: a) : ℚ) * 10 ^ (exponent - fraction) = k ∧ k < 2 ^ 64 := by
  have hlength : lengthAsI64 fraction = .ok fraction := if_pos (by omega)
  simp only [placed, hlength, bind, Except.bind]
  cases hshift : checkedI64 (exponent - fraction) with
  | none =>
    have hout := checkedI64_none.mp hshift
    have hin := (checkedI64_some.mp he).2
    exact ⟨none, rfl, far_none hd hb hlen (by omega)⟩
  | some shift =>
    obtain rfl := (checkedI64_some.mp hshift).1
    exact shifted_iff hd hb (by omega) _

/-- An integer is read from a token exactly where the token's value is one that 64 bits hold,
and no step leaves its range. -/
theorem integer_exact (h : n.spelling.length ≤ 2 ^ 20) :
    ∃ r, integer (.number n.spelling) = .ok r ∧
      ∀ k : Nat, r = some k ↔ n.value = k ∧ k < 2 ^ 64 := by
  have hall := digits_isDigit n
  have hlength : (n.whole ++ n.fraction.getD []).length ≤ 2 ^ 20 := by
    rw [← mantissa_filter]
    refine (List.length_filter_le _ _).trans (le_trans ?_ h)
    rw [spelling_eq]
    simp only [mantissa, unsigned, List.length_append]
    omega
  have hfraction : (n.fraction.getD []).length ≤ 2 ^ 20 := by
    rw [List.length_append] at hlength
    omega
  have hnatural := Json.natural_dropWhile (n.whole ++ n.fraction.getD [])
  have hdigits : ∀ x ∈ (n.whole ++ n.fraction.getD []).dropWhile (· == zero), isDigit x = true :=
    fun x hx => hall x ((List.dropWhile_suffix _).mem hx)
  have hstripped : ((n.whole ++ n.fraction.getD []).dropWhile (· == zero)).length ≤ 2 ^ 20 :=
    (List.dropWhile_suffix _).length_le.trans hlength
  have hhead : ∀ b ∈ ((n.whole ++ n.fraction.getD []).dropWhile (· == zero)).head?, b ≠ zero := by
    intro b hb
    have hnot := List.head?_dropWhile_not (· == zero) (n.whole ++ n.fraction.getD [])
    rw [hb] at hnot
    simpa using hnot
  rw [integer, integerToken_spelling, Json.Number.value_eq, ← hnatural]
  generalize (n.whole ++ n.fraction.getD []).dropWhile (· == zero) = digits at *
  cases digits with
  | nil =>
    refine ⟨some 0, rfl, fun k => ?_⟩
    rw [Json.natural_nil, Nat.cast_zero, zero_mul, mul_zero, eq_comm, Option.some.injEq,
      eq_comm (a := (0 : ℚ)), Nat.cast_eq_zero]
    exact ⟨fun hk => ⟨hk, by omega⟩, fun hk => hk.1⟩
  | cons b a =>
    have hb : b ≠ zero := hhead b rfl
    have hpos : 0 < natural (b :: a) :=
      lt_of_lt_of_le (by positivity) (Json.natural_ge (hdigits b List.mem_cons_self) hb)
    simp only [reduceCtorEq, if_false]
    cases n.negative with
    | true =>
      refine ⟨none, rfl, fun k => ⟨nofun, fun ⟨hk, _⟩ => ?_⟩⟩
      have hvalue : (0 : ℚ) < natural (b :: a) *
          10 ^ (n.exponent.elim 0 Json.Exponent.value - (n.fraction.getD []).length) :=
        mul_pos (Nat.cast_pos.mpr hpos) (zpow_pos (by norm_num) _)
      have hnonneg : (0 : ℚ) ≤ k := Nat.cast_nonneg k
      rw [if_pos rfl] at hk
      linarith
    | false =>
      simp only [Bool.false_eq_true, if_false, one_mul]
      cases he : checkedI64 (n.exponent.elim 0 Json.Exponent.value) with
      | none =>
        have hout := checkedI64_none.mp he
        exact ⟨none, rfl, far_none hdigits hb hstripped (by omega)⟩
      | some exponent =>
        obtain rfl := (checkedI64_some.mp he).1
        exact placed_iff hdigits hb hstripped hfraction he

def sampleNumber : Json.Number where
  negative := false
  whole := [0x31, 0x32]
  fraction := some [0x35, 0x30]
  exponent := some ⟨0x65, none, [0x31], rfl, nofun, by decide +kernel, by decide +kernel⟩
  isWhole := ⟨by decide +kernel, by decide +kernel⟩
  noZero := by decide +kernel
  isFraction := by
    rintro _ ⟨⟩
    exact ⟨by decide +kernel, by decide +kernel⟩

theorem integer_exact_sample : sampleNumber.spelling.length ≤ 2 ^ 20 ∧
    integer (.number sampleNumber.spelling) = .ok (some 125) ∧ sampleNumber.value = (125 : Nat) := by
  have hread : integer (.number sampleNumber.spelling) = .ok (some 125) := by decide +kernel
  obtain ⟨r, hr, hiff⟩ := integer_exact sampleNumber (by decide)
  obtain rfl := Except.ok.inj (hread.symm.trans hr)
  exact ⟨by decide, hread, ((hiff 125).mp rfl).1⟩

end

end TalkSphere.Board
