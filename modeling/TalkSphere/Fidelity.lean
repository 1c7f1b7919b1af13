import TalkSphere.Offerings

/-! Documents keep the tree of their text: every object its members, every number its token,
as long as no object of the text starts with the private key of the number type. -/

namespace TalkSphere.Board

open Json (Tree)
open Outcome (bind_ok)
open Std (TreeMap)

/-! A value against the tree of a text. Members may change places. -/

mutual

def Mirrors : Tree → Tree → Prop
  | .array items, v => ∃ values, v = .array values ∧ MirrorsItems items values
  | .object ms, v => ∃ values, v = .object values ∧ DistinctKeys values ∧
      (values.map Prod.fst).Perm (ms.map Prod.fst) ∧ MirrorsMembers ms values
  | .null, v => v = .null
  | .bool b, v => v = .bool b
  | .number token, v => v = .number token
  | .string text, v => v = .string text

def MirrorsItems : List Tree → List Tree → Prop
  | [], values => values = []
  | t :: ts, values => ∃ v vs, values = v :: vs ∧ Mirrors t v ∧ MirrorsItems ts vs

def MirrorsMembers : List (String × Tree) → List (String × Tree) → Prop
  | [], _ => True
  | (key, t) :: ms, values => (∃ v, (key, v) ∈ values ∧ Mirrors t v) ∧ MirrorsMembers ms values

end

theorem mirrorsMembers_iff {ms values : List (String × Tree)} :
    MirrorsMembers ms values ↔ ∀ m ∈ ms, ∃ v, (m.1, v) ∈ values ∧ Mirrors m.2 v := by
  induction ms with
  | nil => simp [MirrorsMembers]
  | cons m ms ih => simp [MirrorsMembers, ih]

/-! Objects that the decoder takes for numbers. -/

def Unreserved (t : Tree) : Prop :=
  ∀ ms, Tree.object ms ∈ t.subtrees → (ms.head?.map Prod.fst) ≠ some privateKey

theorem unreserved_array {items : List Tree} :
    Unreserved (.array items) ↔ ∀ t ∈ items, Unreserved t := by
  simp only [Unreserved, Tree.subtrees, List.mem_cons, mem_subtreesOf, reduceCtorEq, false_or]
  constructor
  · exact fun h t ht ms hms => h ms ⟨t, ht, hms⟩
  · rintro h ms ⟨t, ht, hms⟩
    exact h t ht ms hms

theorem unreserved_object {members : List (String × Tree)} :
    Unreserved (.object members) ↔
      members.head?.map Prod.fst ≠ some privateKey ∧ ∀ m ∈ members, Unreserved m.2 := by
  simp only [Unreserved, Tree.subtrees, List.mem_cons, mem_memberSubtrees, Tree.object.injEq]
  constructor
  · exact fun h => ⟨h members (.inl rfl), fun m hm ms hms => h ms (.inr ⟨m, hm, hms⟩)⟩
  · rintro ⟨hhead, hparts⟩ ms (rfl | ⟨m, hm, hms⟩)
    · exact hhead
    · exact hparts m hm ms hms

/-! Decoding. -/

theorem distinctKeys_iff {ms : List (String × Tree)} :
    DistinctKeys ms ↔ (ms.map Prod.fst).Nodup :=
  List.pairwise_map.symm

theorem mapOf_perm {ms : List (String × Tree)} (h : DistinctKeys ms) : (mapOf ms).Perm ms := by
  have hnodup : ∀ {l : List (String × Tree)}, DistinctKeys l → l.Nodup :=
    fun hl => hl.imp fun hne he => hne (congrArg Prod.fst he)
  refine (List.perm_ext_iff_of_nodup (hnodup (mapOf_distinct ms)) (hnodup h)).mpr ?_
  rintro ⟨key, t⟩
  rw [mapOf, TreeMap.mem_toList_iff_getElem?_eq_some]
  have hmem : ∀ {u : Tree}, (key, u) ∈ ms → (TreeMap.ofList ms)[key]? = some u :=
    fun hu => TreeMap.getElem?_ofList_of_mem Std.compare_self (h.imp fun hne he =>
      hne (Std.compare_eq_iff_eq.mp he)) hu
  constructor
  · intro hlook
    by_cases hkey : key ∈ ms.map Prod.fst
    · obtain ⟨⟨_, u⟩, hu, rfl⟩ := List.mem_map.mp hkey
      exact Option.some.inj ((hmem hu).symm.trans hlook) ▸ hu
    · rw [TreeMap.getElem?_ofList_of_contains_eq_false (by simpa using hkey)] at hlook
      cases hlook
  · exact hmem

mutual

theorem ofTree_mirrors {limits : Limits} : ∀ t : Tree, Fits limits t → Unreserved t →
    ∃ v, ofTree t = some v ∧ Mirrors t v
  | .null, _, _ => ⟨.null, rfl, rfl⟩
  | .bool b, _, _ => ⟨.bool b, rfl, rfl⟩
  | .number token, _, _ => ⟨.number token, rfl, rfl⟩
  | .string text, _, _ => ⟨.string text, rfl, rfl⟩
  | .array items, hfits, hfree => by
    obtain ⟨values, hvalues, hmirrors⟩ := ofTrees_mirrors items
      (fits_array.mp hfits).2 (unreserved_array.mp hfree)
    exact ⟨.array values, by rw [ofTree, hvalues]; rfl, values, rfl, hmirrors⟩
  | .object [], _, _ => ⟨.object [], rfl, [], rfl, .nil, .nil, trivial⟩
  | .object ((key, first) :: rest), hfits, hfree => by
    obtain ⟨⟨hkeys, -⟩, hparts⟩ := fits_object.mp hfits
    obtain ⟨hhead, hfree⟩ := unreserved_object.mp hfree
    obtain ⟨v, hv, hfirst⟩ := ofTree_mirrors first (hparts (key, first) List.mem_cons_self)
      (hfree (key, first) List.mem_cons_self)
    obtain ⟨values, hvalues, hnames, hrest⟩ := ofMembers_mirrors rest
      (fun m hm => hparts m (List.mem_cons_of_mem _ hm))
      fun m hm => hfree m (List.mem_cons_of_mem _ hm)
    have hall : ((key, v) :: values).map Prod.fst = ((key, first) :: rest).map Prod.fst := by
      rw [List.map_cons, List.map_cons, hnames]
    have hdistinct : DistinctKeys ((key, v) :: values) := by
      rw [distinctKeys_iff, hall]
      exact hkeys
    have hperm := mapOf_perm hdistinct
    refine ⟨.object (mapOf ((key, v) :: values)), ?_, _, rfl, mapOf_distinct _, ?_, ?_⟩
    · rw [ofTree, if_neg fun hkey => hhead (congrArg some hkey), hv, hvalues]
      rfl
    · exact hall ▸ hperm.map Prod.fst
    · refine ⟨⟨v, hperm.mem_iff.mpr List.mem_cons_self, hfirst⟩, mirrorsMembers_iff.mpr ?_⟩
      intro m hm
      obtain ⟨w, hw, hm⟩ := mirrorsMembers_iff.mp hrest m hm
      exact ⟨w, hperm.mem_iff.mpr (List.mem_cons_of_mem _ hw), hm⟩

theorem ofTrees_mirrors {limits : Limits} : ∀ ts : List Tree, (∀ t ∈ ts, Fits limits t) →
    (∀ t ∈ ts, Unreserved t) → ∃ values, ofTrees ts = some values ∧ MirrorsItems ts values
  | [], _, _ => ⟨[], rfl, rfl⟩
  | t :: ts, hfits, hfree => by
    obtain ⟨v, hv, hfirst⟩ := ofTree_mirrors t (hfits t List.mem_cons_self)
      (hfree t List.mem_cons_self)
    obtain ⟨values, hvalues, hrest⟩ := ofTrees_mirrors ts
      (fun t ht => hfits t (List.mem_cons_of_mem _ ht))
      fun t ht => hfree t (List.mem_cons_of_mem _ ht)
    exact ⟨v :: values, by rw [ofTrees, hv, hvalues]; rfl, v, values, rfl, hfirst, hrest⟩

theorem ofMembers_mirrors {limits : Limits} : ∀ ms : List (String × Tree),
    (∀ m ∈ ms, Fits limits m.2) → (∀ m ∈ ms, Unreserved m.2) →
    ∃ values, ofMembers ms = some values ∧ values.map Prod.fst = ms.map Prod.fst ∧
      MirrorsMembers ms values
  | [], _, _ => ⟨[], rfl, rfl, trivial⟩
  | (key, t) :: ms, hfits, hfree => by
    obtain ⟨v, hv, hfirst⟩ := ofTree_mirrors t (hfits (key, t) List.mem_cons_self)
      (hfree (key, t) List.mem_cons_self)
    obtain ⟨values, hvalues, hnames, hrest⟩ := ofMembers_mirrors ms
      (fun m hm => hfits m (List.mem_cons_of_mem _ hm))
      fun m hm => hfree m (List.mem_cons_of_mem _ hm)
    refine ⟨(key, v) :: values, by rw [ofMembers, hv, hvalues]; rfl, ?_,
      ⟨v, List.mem_cons_self, hfirst⟩, mirrorsMembers_iff.mpr ?_⟩
    · rw [List.map_cons, List.map_cons, hnames]
    · intro m hm
      obtain ⟨w, hw, hm⟩ := mirrorsMembers_iff.mp hrest m hm
      exact ⟨w, List.mem_cons_of_mem _ hw, hm⟩

end

theorem ofMembers_keys {ms values : List (String × Tree)} (h : ofMembers ms = some values) :
    values.map Prod.fst = ms.map Prod.fst := by
  induction ms generalizing values with
  | nil =>
    obtain rfl := Option.some.inj h
    rfl
  | cons m ms ih =>
    simp only [ofMembers, Option.bind_eq_bind, Option.bind_eq_some_iff, Option.some.injEq] at h
    obtain ⟨v, -, vs, hvs, rfl⟩ := h
    rw [List.map_cons, List.map_cons, ih hvs]

theorem privateNumber_object {t : Tree} {rest values : List (String × Tree)} :
    privateNumber t rest ≠ some (.object values) := by
  unfold privateNumber
  split
  · simp [numberFromString]
  · simp

/-! A tree that its value mirrors has no reserved object: the value of one is a number. -/

mutual

theorem unreserved_of_mirrors {limits : Limits} : ∀ t v : Tree, Fits limits t →
    ofTree t = some v → Mirrors t v → Unreserved t
  | .null, _, _, _, _ => by simp [Unreserved, Tree.subtrees]
  | .bool _, _, _, _, _ => by simp [Unreserved, Tree.subtrees]
  | .number _, _, _, _, _ => by simp [Unreserved, Tree.subtrees]
  | .string _, _, _, _, _ => by simp [Unreserved, Tree.subtrees]
  | .array items, v, hfits, hv, hmirrors => by
    obtain ⟨values, hvalues, rfl⟩ := Option.map_eq_some_iff.mp hv
    obtain ⟨_, he, hitems⟩ := hmirrors
    obtain rfl := Tree.array.inj he
    have hall := unreserved_items items values (fits_array.mp hfits).2 hvalues hitems
    exact unreserved_array.mpr hall
  | .object [], _, _, _, _ => by simp [unreserved_object]
  | .object ((key, first) :: rest), v, hfits, hv, hmirrors => by
    obtain ⟨⟨hkeys, -⟩, hparts⟩ := fits_object.mp hfits
    obtain ⟨all, rfl, -, -, hmembers⟩ := hmirrors
    rw [ofTree] at hv
    split at hv
    case isTrue => exact absurd hv privateNumber_object
    case isFalse hkey =>
    simp only [Option.bind_eq_bind, Option.bind_eq_some_iff, Option.some.injEq,
      Tree.object.injEq] at hv
    obtain ⟨w, hw, values, hvalues, rfl⟩ := hv
    have hdistinct : DistinctKeys ((key, w) :: values) := by
      rw [distinctKeys_iff, List.map_cons, ofMembers_keys hvalues]
      exact hkeys
    have hperm := mapOf_perm hdistinct
    -- The keys are distinct, so the value a member is mirrored by is its own.
    have hown : ∀ m ∈ (key, first) :: rest, ∀ u, (m.1, u) ∈ (key, w) :: values →
        Mirrors m.2 u := by
      intro m hm u hu
      obtain ⟨u', hu', hmirrors⟩ := mirrorsMembers_iff.mp hmembers m hm
      have hsame := (hdistinct.lookup (hperm.mem_iff.mp hu')).symm.trans (hdistinct.lookup hu)
      exact Option.some.inj hsame ▸ hmirrors
    have hfirst := unreserved_of_mirrors first w (hparts (key, first) List.mem_cons_self) hw
      (hown (key, first) List.mem_cons_self w List.mem_cons_self)
    have hrest := unreserved_members rest values
      (fun m hm => hparts m (List.mem_cons_of_mem _ hm)) hvalues
      fun m hm u hu => hown m (List.mem_cons_of_mem _ hm) u (List.mem_cons_of_mem _ hu)
    exact unreserved_object.mpr
      ⟨fun h => hkey (Option.some.inj h), List.forall_mem_cons.mpr ⟨hfirst, hrest⟩⟩

theorem unreserved_items {limits : Limits} : ∀ ts values : List Tree, (∀ t ∈ ts, Fits limits t) →
    ofTrees ts = some values → MirrorsItems ts values → ∀ t ∈ ts, Unreserved t
  | [], _, _, _, _ => by simp
  | t :: ts, values, hfits, hv, hmirrors => by
    simp only [ofTrees, Option.bind_eq_bind, Option.bind_eq_some_iff, Option.some.injEq] at hv
    obtain ⟨w, hw, ws, hws, rfl⟩ := hv
    obtain ⟨_, _, he, hfirst, hrest⟩ := hmirrors
    obtain ⟨rfl, rfl⟩ := List.cons.inj he
    obtain ⟨hfit, hfits⟩ := List.forall_mem_cons.mp hfits
    exact List.forall_mem_cons.mpr ⟨unreserved_of_mirrors t w hfit hw hfirst,
      unreserved_items ts ws hfits hws hrest⟩

theorem unreserved_members {limits : Limits} : ∀ ms values : List (String × Tree),
    (∀ m ∈ ms, Fits limits m.2) → ofMembers ms = some values →
    (∀ m ∈ ms, ∀ u, (m.1, u) ∈ values → Mirrors m.2 u) → ∀ m ∈ ms, Unreserved m.2
  | [], _, _, _, _ => by simp
  | (key, t) :: ms, values, hfits, hv, hmirrors => by
    simp only [ofMembers, Option.bind_eq_bind, Option.bind_eq_some_iff, Option.some.injEq] at hv
    obtain ⟨w, hw, ws, hws, rfl⟩ := hv
    obtain ⟨hfit, hfits⟩ := List.forall_mem_cons.mp hfits
    exact List.forall_mem_cons.mpr ⟨unreserved_of_mirrors t w hfit hw
      (hmirrors (key, t) List.mem_cons_self w List.mem_cons_self),
      unreserved_members ms ws hfits hws fun m hm u hu =>
        hmirrors m (List.mem_cons_of_mem _ hm) u (List.mem_cons_of_mem _ hu)⟩

end

/-! Places in a tree. -/

inductive Step
  | member (key : String)
  | element (index : Nat)

def follow : Tree → List Step → Option Tree
  | t, [] => some t
  | t, .member key :: path => (get t key).bind (follow · path)
  | t, .element i :: path => ((asArray t).bind (·[i]?)).bind (follow · path)

theorem MirrorsItems.at {items values : List Tree} (h : MirrorsItems items values) {i : Nat} {v : Tree}
    (hv : values[i]? = some v) : ∃ t, items[i]? = some t ∧ Mirrors t v := by
  induction items generalizing values i with
  | nil =>
    obtain rfl := h
    cases hv
  | cons t items ih =>
    obtain ⟨first, rest, rfl, hfirst, hrest⟩ := h
    cases i with
    | zero => exact ⟨t, rfl, Option.some.inj hv ▸ hfirst⟩
    | succ i => exact ih hrest hv

theorem Mirrors.member {t v part : Tree} {key : String} (h : Mirrors t v)
    (hv : get v key = some part) (hkeys : ∀ ms, t = .object ms → DistinctKeys ms) :
    ∃ own, get t key = some own ∧ Mirrors own part := by
  cases t with
  | null | bool | number | string =>
    rw [Mirrors] at h
    subst h
    cases hv
  | array items =>
    rw [Mirrors] at h
    obtain ⟨values, rfl, -⟩ := h
    cases hv
  | object ms =>
    rw [Mirrors] at h
    obtain ⟨values, rfl, hdistinct, hperm, hmembers⟩ := h
    have hmem := lookup_some hv
    have hkey : key ∈ ms.map Prod.fst := hperm.mem_iff.mp (List.mem_map.mpr ⟨_, hmem, rfl⟩)
    obtain ⟨⟨_, own⟩, hown, rfl⟩ := List.mem_map.mp hkey
    obtain ⟨w, hw, hmirrors⟩ := mirrorsMembers_iff.mp hmembers _ hown
    have hsame := Option.some.inj ((hdistinct.lookup hw).symm.trans (hdistinct.lookup hmem))
    exact ⟨own, (hkeys ms rfl).lookup hown, hsame ▸ hmirrors⟩

theorem Mirrors.element {t v : Tree} {values : List Tree} {i : Nat} {part : Tree} (h : Mirrors t v)
    (hv : asArray v = some values) (hi : values[i]? = some part) :
    ∃ items own, asArray t = some items ∧ items[i]? = some own ∧ Mirrors own part := by
  cases t with
  | null | bool | number | string =>
    rw [Mirrors] at h
    subst h
    cases hv
  | object ms =>
    rw [Mirrors] at h
    obtain ⟨values, rfl, -⟩ := h
    cases hv
  | array items =>
    rw [Mirrors] at h
    obtain ⟨values', rfl, hitems⟩ := h
    obtain rfl := Option.some.inj hv
    obtain ⟨own, hown, hmirrors⟩ := hitems.at hi
    exact ⟨items, own, rfl, hown, hmirrors⟩

theorem Mirrors.follow {limits : Limits} {t v part : Tree} {path : List Step} (h : Mirrors t v)
    (hfits : Fits limits t) (hv : follow v path = some part) :
    ∃ own, Board.follow t path = some own ∧ Mirrors own part := by
  induction path generalizing t v with
  | nil => exact ⟨t, rfl, Option.some.inj hv ▸ h⟩
  | cons step path ih =>
    cases step with
    | member key =>
      obtain ⟨next, hnext, hv⟩ := Option.bind_eq_some_iff.mp hv
      have hkeys : ∀ ms, t = .object ms → DistinctKeys ms := by
        rintro ms rfl
        exact distinctKeys_iff.mpr (fits_object.mp hfits).1.1
      obtain ⟨own, hown, hmirrors⟩ := h.member hnext hkeys
      have hfits' : Fits limits own := by
        cases t with
        | object ms => exact (fits_object.mp hfits).2 _ (lookup_some hown)
        | null | bool | number | string | array => cases hown
      obtain ⟨last, hlast, hpart⟩ := ih hmirrors hfits' hv
      exact ⟨last, Option.bind_eq_some_iff.mpr ⟨own, hown, hlast⟩, hpart⟩
    | element i =>
      obtain ⟨next, hnext, hv⟩ := Option.bind_eq_some_iff.mp hv
      obtain ⟨values, hvalues, hi⟩ := Option.bind_eq_some_iff.mp hnext
      obtain ⟨items, own, hitems, hown, hmirrors⟩ := h.element hvalues hi
      have hfits' : Fits limits own := by
        cases t with
        | array all =>
          obtain rfl := Option.some.inj hitems
          exact (fits_array.mp hfits).2 _ (List.mem_of_getElem? hown)
        | null | bool | number | string | object => cases hitems
      obtain ⟨last, hlast, hpart⟩ := ih hmirrors hfits' hv
      refine ⟨last, Option.bind_eq_some_iff.mpr ⟨own, ?_, hlast⟩, hpart⟩
      exact Option.bind_eq_some_iff.mpr ⟨items, hitems, hown⟩

theorem Mirrors.number {t : Tree} {token : List UInt8} (h : Mirrors t (.number token)) :
    t = .number token := by
  cases t with
  | null | bool | number | string =>
    rw [Mirrors] at h
    cases h <;> rfl
  | array items =>
    rw [Mirrors] at h
    obtain ⟨values, hv, -⟩ := h
    cases hv
  | object ms =>
    rw [Mirrors] at h
    obtain ⟨values, hv, -⟩ := h
    cases hv

theorem integer_number {v : Tree} {n : Nat} (h : integer v = .ok (some n)) :
    ∃ token, v = .number token := by
  cases v with
  | number token => exact ⟨token, rfl⟩
  | null | bool | string | array | object => cases h

theorem positive_integer {v : Tree} {n : Nat} (h : positive v = .ok n) :
    integer v = .ok (some n) := by
  obtain ⟨r, hr, h⟩ := bind_ok.mp h
  obtain ⟨hsome, -⟩ := Option.filter_eq_some_iff.mp (need_ok.mp h)
  rw [hr, hsome]

/-! JSON texts are in UTF-8. -/

def Encoded (bytes : List UInt8) : Prop := ∃ chars, bytes = Json.utf8 chars

theorem Encoded.append {bytes more : List UInt8} (h : Encoded bytes) (h' : Encoded more) :
    Encoded (bytes ++ more) := by
  obtain ⟨chars, rfl⟩ := h
  obtain ⟨others, rfl⟩ := h'
  exact ⟨chars ++ others, (Json.utf8_append chars others).symm⟩

theorem encoded_ascii {bytes : List UInt8} (h : ∀ b ∈ bytes, b.toNat ≤ 127) : Encoded bytes := by
  induction bytes with
  | nil => exact ⟨[], rfl⟩
  | cons b bytes ih =>
    obtain ⟨hb, hbytes⟩ := List.forall_mem_cons.mp h
    have hvalid : b.toNat.isValidChar := .inl (by omega)
    have hnat : (Char.ofNat b.toNat).toNat = b.toNat := by
      rw [Char.ofNat, dif_pos hvalid]
      rfl
    have hone : Json.utf8 [Char.ofNat b.toNat] = [b] := by
      have hencode := Json.encode_ascii (c := Char.ofNat b.toNat) (by omega)
      rw [hnat] at hencode
      simpa [Json.utf8] using hencode
    exact Encoded.append ⟨_, hone.symm⟩ (ih hbytes)

theorem Encoded.cons {b : UInt8} {bytes : List UInt8} (hb : b.toNat ≤ 127) (h : Encoded bytes) :
    Encoded (b :: bytes) :=
  (encoded_ascii (List.forall_mem_singleton.mpr hb)).append h

theorem isSpace_ascii {b : UInt8} (h : Json.isSpace b = true) : b.toNat ≤ 127 := by
  simp only [Json.isSpace, Bool.or_eq_true, beq_iff_eq] at h
  rcases h with ((rfl | rfl) | rfl) | rfl <;> decide

theorem isDigit_ascii {b : UInt8} (h : Json.isDigit b = true) : b.toNat ≤ 127 := by
  simp only [Json.isDigit, Bool.and_eq_true, decide_eq_true_eq, UInt8.le_iff_toNat_le] at h
  have hupper : (0x39 : UInt8).toNat = 57 := rfl
  omega

theorem space_encoded {gap : List UInt8} (h : Json.Space gap) : Encoded gap :=
  encoded_ascii fun b hb => isSpace_ascii (h b hb)

theorem number_encoded {token : List UInt8} (h : Json.IsNumber token) : Encoded token := by
  obtain ⟨n, rfl⟩ := h
  have hdigits : ∀ {digits}, Json.Digits digits → Encoded digits :=
    fun h => encoded_ascii fun b hb => isDigit_ascii (h.2 b hb)
  have hnil : Encoded [] := ⟨[], rfl⟩
  have hsign : Encoded (if n.negative then [Json.minus] else []) := by
    split
    · exact hnil.cons (by decide)
    · exact hnil
  have hfraction : Encoded (n.fraction.elim [] fun digits => Json.point :: digits) := by
    cases hf : n.fraction with
    | none => exact hnil
    | some digits => exact (hdigits (n.isFraction digits hf)).cons (by decide)
  have hexponent : Encoded (n.exponent.elim [] Json.Exponent.spelling) := by
    cases n.exponent with
    | none => exact hnil
    | some e =>
      have hmark : e.mark.toNat ≤ 127 := by
        have := e.isMark
        simp only [Json.isMark, Bool.or_eq_true, beq_iff_eq] at this
        rcases this with h | h <;> rw [h] <;> decide
      refine Encoded.cons hmark (Encoded.append ?_ (hdigits e.isDigits))
      cases hs : e.sign with
      | none => exact hnil
      | some b =>
        refine hnil.cons ?_
        rcases e.isSign b hs with rfl | rfl <;> decide
  exact ((hsign.append (hdigits n.isWhole)).append hfraction).append hexponent

theorem string_encoded {text : String} {token : List UInt8} (h : Json.IsString text token) :
    Encoded token := by
  obtain ⟨body, -, rfl⟩ := h
  exact ⟨_, rfl⟩

theorem derives_encoded {phrase : Json.Phrase} {bytes : List UInt8} (h : Json.Derives phrase bytes) :
    Encoded bytes := by
  have hnil : Encoded [] := ⟨[], rfl⟩
  have hcomma : Json.comma.toNat ≤ 127 := by decide
  have hcolon : Json.colon.toNat ≤ 127 := by decide
  have hclosed : ∀ {opening closing : UInt8} {body : List UInt8}, opening.toNat ≤ 127 →
      closing.toNat ≤ 127 → Encoded body → Encoded (opening :: (body ++ [closing])) :=
    fun ho hc hb => (hb.append (hnil.cons hc)).cons ho
  induction h with
  | null => exact encoded_ascii (by decide +kernel)
  | bool b => cases b <;> exact encoded_ascii (by decide +kernel)
  | number h => exact number_encoded h
  | string h => exact string_encoded h
  | emptyArray h => exact hclosed (by decide) (by decide) (space_encoded h)
  | array _ ih => exact hclosed (by decide) (by decide) ih
  | emptyObject h => exact hclosed (by decide) (by decide) (space_encoded h)
  | object _ ih => exact hclosed (by decide) (by decide) ih
  | padded hb _ ha ih => exact (space_encoded hb).append (ih.append (space_encoded ha))
  | element _ ih => exact ih
  | elements _ _ ih ihr => exact ih.append (ihr.cons hcomma)
  | member hb hk ha _ ih =>
    exact (space_encoded hb).append ((string_encoded hk).append
      ((space_encoded ha).append (ih.cons hcolon)))
  | members hb hk ha _ _ ih ihr =>
    exact (space_encoded hb).append ((string_encoded hk).append
      ((space_encoded ha).append ((ih.append (ihr.cons hcomma)).cons hcolon)))

theorem text_encoded {t : Tree} {bytes : List UInt8} (h : Json.Text t bytes) :
    (String.fromUTF8? ⟨bytes.toArray⟩).isSome = true := by
  obtain ⟨chars, hchars⟩ := derives_encoded h
  have hsome := Json.fromUTF8_iff.mpr hchars
  rw [← Option.isSome_map (f := String.toList), hsome]
  rfl

theorem Document.parse_tree {bytes : List UInt8} {limits : Limits} {t v : Tree}
    (hvalid : limits.validate = .ok ()) (hlength : bytes.length ≤ limits.documentBytes)
    (hparse : Json.parse bytes = some t) (hwithin : Within limits t) (hvalue : ofTree t = some v) :
    Document.parse bytes limits = .ok ⟨bytes, v⟩ :=
  Document.parse_ok.mpr ⟨hvalid, hlength, text_encoded (Json.parse_iff.mp hparse),
    scan_ok.mpr ⟨t, hparse, hwithin⟩, Option.bind_eq_some_iff.mpr ⟨t, hparse, hvalue⟩, rfl⟩

/-! Fidelity. -/

/-- What a document owes the text it was parsed from. -/
structure Faithful (bytes : List UInt8) (limits : Limits) : Prop where
  accepts : (∃ d, Document.parse bytes limits = .ok d) ↔
    bytes.length ≤ limits.documentBytes ∧ scan bytes limits = .ok ()
  mirrors : ∀ d, Document.parse bytes limits = .ok d → ∃ t, Json.Text t bytes ∧ Mirrors t d.value
  /-- A number is read only where the text has one. -/
  numbers : ∀ d t path v n, Document.parse bytes limits = .ok d → Json.Text t bytes →
    follow d.value path = some v → integer v = .ok (some n) ∨ positive v = .ok n →
    ∃ token, v = .number token ∧ follow t path = some (.number token)

theorem faithful_unreserved {bytes : List UInt8} {limits : Limits} (h : Faithful bytes limits)
    (hlength : bytes.length ≤ limits.documentBytes) (hscan : scan bytes limits = .ok ()) {t : Tree}
    (htext : Json.Text t bytes) : Unreserved t := by
  obtain ⟨d, hd⟩ := h.accepts.mpr ⟨hlength, hscan⟩
  obtain ⟨-, -, -, -, hvalue, -⟩ := Document.parse_ok.mp hd
  obtain ⟨t', htext', hmirrors⟩ := h.mirrors d hd
  obtain ⟨u, hparse, hwithin⟩ := scan_ok.mp hscan
  obtain rfl := Option.some.inj (hparse.symm.trans (Json.parse_iff.mpr htext))
  obtain rfl := Option.some.inj (hparse.symm.trans (Json.parse_iff.mpr htext'))
  rw [fromSlice, hparse] at hvalue
  exact unreserved_of_mirrors _ d.value (within_iff.mp hwithin).1 hvalue hmirrors

/-- A text is read faithfully exactly if it is too long, or refused by the scanner, or free
of reserved objects. -/
theorem parse_faithful {bytes : List UInt8} {limits : Limits} (hvalid : limits.validate = .ok ()) :
    Faithful bytes limits ↔ (bytes.length ≤ limits.documentBytes → scan bytes limits = .ok () →
      ∀ t, Json.Text t bytes → Unreserved t) := by
  refine ⟨fun h hlength hscan t htext => faithful_unreserved h hlength hscan htext,
    fun hfree => ?_⟩
  have hdecode : bytes.length ≤ limits.documentBytes → scan bytes limits = .ok () →
      ∃ t v, Json.Text t bytes ∧ Fits limits t ∧ fromSlice bytes = some v ∧ Mirrors t v := by
    intro hlength hscan
    obtain ⟨t, hparse, hwithin⟩ := scan_ok.mp hscan
    have htext := Json.parse_iff.mp hparse
    have hfits := (within_iff.mp hwithin).1
    obtain ⟨v, hv, hmirrors⟩ := ofTree_mirrors t hfits (hfree hlength hscan t htext)
    exact ⟨t, v, htext, hfits, Option.bind_eq_some_iff.mpr ⟨t, hparse, hv⟩, hmirrors⟩
  constructor
  case accepts =>
    constructor
    · rintro ⟨d, hd⟩
      obtain ⟨-, hlength, -, hscan, -, -⟩ := Document.parse_ok.mp hd
      exact ⟨hlength, hscan⟩
    · rintro ⟨hlength, hscan⟩
      obtain ⟨t, v, htext, -, hv, -⟩ := hdecode hlength hscan
      exact ⟨⟨bytes, v⟩, Document.parse_ok.mpr
        ⟨hvalid, hlength, text_encoded htext, hscan, hv, rfl⟩⟩
  case mirrors =>
    intro d hd
    obtain ⟨-, hlength, -, hscan, hvalue, -⟩ := Document.parse_ok.mp hd
    obtain ⟨t, v, htext, -, hv, hmirrors⟩ := hdecode hlength hscan
    exact ⟨t, htext, Option.some.inj (hv.symm.trans hvalue) ▸ hmirrors⟩
  case numbers =>
    intro d t path v n hd htext hplace hnumber
    obtain ⟨-, hlength, -, hscan, hvalue, -⟩ := Document.parse_ok.mp hd
    obtain ⟨t', v', htext', hfits, hv, hmirrors⟩ := hdecode hlength hscan
    obtain rfl := Option.some.inj ((Json.parse_iff.mpr htext').symm.trans (Json.parse_iff.mpr htext))
    obtain rfl := Option.some.inj (hv.symm.trans hvalue)
    obtain ⟨own, hown, hpart⟩ := hmirrors.follow hfits hplace
    obtain ⟨token, rfl⟩ := integer_number (hnumber.elim id positive_integer)
    exact ⟨token, rfl, hpart.number ▸ hown⟩

def plainText : List UInt8 := [0x7B, 0x22, 0x61, 0x22, 0x3A, 0x31, 0x7D]

theorem parse_faithful_plain : Faithful plainText {} ∧
    Document.parse plainText {} = .ok ⟨plainText, .object [("a", .number [0x31])]⟩ := by
  have hparse : Json.parse plainText = some (.object [("a", .number [0x31])]) := by decide +kernel
  refine ⟨(parse_faithful rfl).mpr fun _ _ t ht => ?_, by decide +kernel⟩
  obtain rfl := Option.some.inj (hparse.symm.trans (Json.parse_iff.mpr ht))
  refine unreserved_object.mpr ⟨by decide +kernel, ?_⟩
  simp [Unreserved, Tree.subtrees]

def reservedText (value : List UInt8) : List UInt8 :=
  Json.openBrace :: Json.quote :: (Json.utf8 privateKey.toList ++ Json.quote :: Json.colon :: value) ++
    [Json.closeBrace]

/-- Behind the private key a string is read as a number, and a number is refused. -/
theorem reserved_object_read_as_number :
    Json.Text (.object [(privateKey, .string "1")]) (reservedText [0x22, 0x31, 0x22]) ∧
    Document.parse (reservedText [0x22, 0x31, 0x22]) {} =
      .ok ⟨reservedText [0x22, 0x31, 0x22], .number [0x31]⟩ ∧
    integer (.number [0x31]) = .ok (some 1) ∧
    scan (reservedText [0x35]) {} = .ok () ∧
    Document.parse (reservedText [0x35]) {} = .error (.refused .invalid) ∧
    ¬ Faithful (reservedText [0x22, 0x31, 0x22]) {} ∧ ¬ Faithful (reservedText [0x35]) {} := by
  have htext := Json.parse_iff.mp (show Json.parse (reservedText [0x22, 0x31, 0x22]) =
    some (.object [(privateKey, .string "1")]) by decide +kernel)
  have hparse : Document.parse (reservedText [0x22, 0x31, 0x22]) {} =
      .ok ⟨reservedText [0x22, 0x31, 0x22], .number [0x31]⟩ := by decide +kernel
  have hread : integer (.number [0x31]) = .ok (some 1) := by decide +kernel
  have hscan : scan (reservedText [0x35]) {} = .ok () := by decide +kernel
  have hrefused : Document.parse (reservedText [0x35]) {} = .error (.refused .invalid) := by
    decide +kernel
  refine ⟨htext, hparse, hread, hscan, hrefused, fun h => ?_, fun h => ?_⟩
  · obtain ⟨token, -, hplace⟩ := h.numbers _ _ [] _ 1 hparse htext rfl (.inl hread)
    cases hplace
  · obtain ⟨d, hd⟩ := h.accepts.mpr ⟨by decide +kernel, hscan⟩
    cases hrefused.symm.trans hd

end TalkSphere.Board
