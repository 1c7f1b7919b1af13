import TalkSphere.Cache
import TalkSphere.ProviderSelection

/-! Runs of a cache, with callers that keep, copy, drop and present receipts as they like, at
times in any order. -/

namespace TalkSphere.Board

open Retention (Held Onward alive_iff mem_retained receive_pos tracked_empty tracked_of_room)
open Outcome (bind_ok)
open Std (TreeMap)

def Remote.Fits (limits : Limits) (remote : Remote) : Prop :=
  ∀ (id : String) (d : Definition), remote.definitions[id]? = some d → ∃ o bytes,
    remote.board.offerings[id]? = some o ∧ Definition.parse bytes o limits = .ok d

namespace Cache

/-- A cache, what its callers hold, the receipts it has issued, newest first, and the revisions
that a definition was attached to. -/
structure World where
  cache : Cache
  held : Held
  issued : List Remote
  extended : List Nat

def World.Presents (w : World) (remote : Remote) : Prop :=
  remote ∈ w.issued ∨ ∀ r ∈ w.issued, r.revision ≠ remote.revision

inductive Step : World → World → Prop
  | stored {w : World} {env : Surroundings} {context : Context} {provenance : Provenance}
      {bytes : List UInt8} {now : Nat} {remote : Remote} {c : Cache} {after : Held}
      (hrun : w.cache.store env context provenance bytes now = (.ok remote, c))
      (hfollows : env.Follows w.held after) :
      Step w ⟨c, after.receive remote.revision, remote :: w.issued, w.extended⟩
  | unstored {w : World} {env : Surroundings} {context : Context} {provenance : Provenance}
      {bytes : List UInt8} {now : Nat} {e : Stop} {c : Cache} {after : Held}
      (hrun : w.cache.store env context provenance bytes now = (.error e, c))
      (hfollows : env.Follows w.held after) : Step w { w with cache := c, held := after }
  | attached {w : World} {env : Surroundings} {context : Context} {remote next : Remote}
      {id : String} {bytes : List UInt8} {now : Nat} {c : Cache} {after : Held}
      (hpresents : w.Presents remote)
      (hrun : w.cache.attach env context remote id bytes now = (.ok next, c))
      (hfollows : env.Follows w.held after) :
      Step w ⟨c, after.receive next.revision, next :: w.issued, remote.revision :: w.extended⟩
  | unattached {w : World} {env : Surroundings} {context : Context} {remote : Remote}
      {id : String} {bytes : List UInt8} {now : Nat} {e : Stop} {c : Cache} {after : Held}
      (hpresents : w.Presents remote)
      (hrun : w.cache.attach env context remote id bytes now = (.error e, c))
      (hfollows : env.Follows w.held after) : Step w { w with cache := c, held := after }
  | read {w : World} {env : Surroundings} {context : Context} {provenance : Provenance} {now : Nat}
      {remote : Remote} {after : Held}
      (hrun : w.cache.read env context provenance now = .ok remote)
      (hfollows : env.Follows w.held after) :
      Step w { w with held := after.receive remote.revision }
  /-- Calls of `definition` and `select`, and refused reads, only let callers go on. -/
  | callers {w : World} {after : Held} (hfollows : Onward w.held after) :
      Step w { w with held := after }

inductive Reaches (authority : Authority) (limits : Limits) : World → Prop
  | start {c : Cache} (hnew : Cache.new authority limits = .ok c) :
      Reaches authority limits ⟨c, fun _ => 0, [], []⟩
  | step {w w' : World} (h : Reaches authority limits w) (hstep : Step w w') :
      Reaches authority limits w'

/-! Entries. -/

section

variable {c : Cache} {k : IdentityId × Bool} {e : Remote} {now : Nat} {held : Held}

theorem expire_some (h : (c.expire now).entries[k]? = some e) :
    c.entries[k]? = some e ∧ now < e.expires := by
  rw [expire, TreeMap.getElem?_filter'] at h
  obtain ⟨h, hexpires⟩ := Option.filter_eq_some_iff.mp h
  exact ⟨h, of_decide_eq_true hexpires⟩

theorem expire_kept (h : c.entries[k]? = some e) (hexpires : now < e.expires) :
    (c.expire now).entries[k]? = some e := by
  rw [expire, TreeMap.getElem?_filter']
  exact Option.filter_eq_some_iff.mpr ⟨h, decide_eq_true hexpires⟩

theorem install_some {remote : Remote} (h : (c.install remote).2.entries[k]? = some e) :
    (k = key remote.provenance ∧ e = { remote with revision := c.next }) ∨
      (k ≠ key remote.provenance ∧ c.entries[k]? = some e) := by
  rw [install, TreeMap.getElem?_insert] at h
  by_cases hk : key remote.provenance = k
  · rw [if_pos (Std.LawfulEqOrd.compare_eq_iff_eq.mpr hk)] at h
    exact .inl ⟨hk.symm, (Option.some.inj h).symm⟩
  · rw [if_neg fun heq => hk (Std.LawfulEqOrd.compare_eq_iff_eq.mp heq)] at h
    exact .inr ⟨fun heq => hk heq.symm, h⟩

theorem install_self {remote : Remote} :
    (c.install remote).2.entries[key remote.provenance]? =
      some { remote with revision := c.next } := by
  rw [install, TreeMap.getElem?_insert_self]

theorem own_pos {r : Nat} : 0 < c.own r ↔
    ∃ (k : IdentityId × Bool) (e : Remote), c.entries[k]? = some e ∧ e.revision = r := by
  rw [own, List.countP_pos_iff]
  constructor
  · rintro ⟨⟨k, e⟩, hmem, hr⟩
    exact ⟨k, e, TreeMap.mem_toList_iff_getElem?_eq_some.mp hmem, of_decide_eq_true hr⟩
  · rintro ⟨k, e, he, hr⟩
    exact ⟨(k, e), TreeMap.mem_toList_iff_getElem?_eq_some.mpr he, decide_eq_true hr⟩

end

/-! Attribution. -/

theorem key_inj {p q : Provenance} (h : key p = key q) : p = q := by
  cases p <;> cases q <;> simp_all [key]

/-- The entries only lose members. -/
def Below (c c' : Cache) : Prop :=
  ∀ (k : IdentityId × Bool) (e : Remote), c.entries[k]? = some e → c'.entries[k]? = some e

structure Inv (limits : Limits) (w : World) : Prop where
  policy : w.cache.limits = limits
  below : ∀ r ∈ w.issued, r.revision < w.cache.next
  distinct : ∀ r ∈ w.issued, ∀ r' ∈ w.issued, r.revision = r'.revision → r = r'
  entries : ∀ (k : IdentityId × Bool) (e : Remote), w.cache.entries[k]? = some e →
    e ∈ w.issued ∧ key e.provenance = k
  fits : ∀ r ∈ w.issued, Remote.Fits limits r
  extended : ∀ v ∈ w.extended, v < w.cache.next ∧
    ∀ (k : IdentityId × Bool) (e : Remote), w.cache.entries[k]? = some e → e.revision ≠ v

variable {limits : Limits} {w w' : World} {held : Held}

theorem Inv.shrink (h : Inv limits w) {c : Cache} (hlimits : c.limits = w.cache.limits)
    (hnext : c.next = w.cache.next) (hentries : Below c w.cache) :
    Inv limits { w with cache := c, held := held } where
  policy := hlimits.trans h.policy
  below r hr := hnext ▸ h.below r hr
  distinct := h.distinct
  entries k e he := h.entries k e (hentries k e he)
  fits := h.fits
  extended v hv := ⟨hnext ▸ (h.extended v hv).1, fun k e he =>
    (h.extended v hv).2 k e (hentries k e he)⟩

theorem Inv.current (h : Inv limits w) {remote : Remote} {now : Nat}
    (hpresents : w.Presents remote) (hcurrent : w.cache.current remote now = .ok ()) :
    w.cache.entries[key remote.provenance]? = some remote ∧ remote.received ≤ now ∧
      now < remote.expires := by
  obtain ⟨⟨e, he, hrevision⟩, hfresh⟩ := current_ok hcurrent
  have hissued := (h.entries _ e he).1
  obtain hpresents | hforeign := hpresents
  · exact ⟨h.distinct e hissued remote hpresents hrevision ▸ he, hfresh⟩
  · exact absurd hrevision (hforeign e hissued)

theorem Inv.install (h : Inv limits w) {remote : Remote} (hfits : Remote.Fits limits remote)
    (gone : List Nat) (hgone : ∀ v ∈ gone, v < w.cache.next ∧
      ∀ (k : IdentityId × Bool) (e : Remote), k ≠ key remote.provenance →
        w.cache.entries[k]? = some e → e.revision ≠ v) :
    Inv limits ⟨(w.cache.install remote).2, held, { remote with revision := w.cache.next } ::
      w.issued, gone ++ w.extended⟩ where
  policy := h.policy
  below r hr := by
    obtain rfl | hr := List.mem_cons.mp hr
    · exact Nat.lt_succ_self _
    · exact Nat.lt_succ_of_lt (h.below r hr)
  distinct r hr r' hr' heq := by
    obtain rfl | hr := List.mem_cons.mp hr
    · obtain rfl | hr' := List.mem_cons.mp hr'
      · rfl
      · exact absurd heq (Nat.ne_of_gt (h.below r' hr'))
    · obtain rfl | hr' := List.mem_cons.mp hr'
      · exact absurd heq (Nat.ne_of_lt (h.below r hr))
      · exact h.distinct r hr r' hr' heq
  entries k e he := by
    obtain ⟨rfl, rfl⟩ | ⟨-, he⟩ := install_some he
    · exact ⟨List.mem_cons_self, rfl⟩
    · obtain ⟨hissued, hkey⟩ := h.entries k e he
      exact ⟨List.mem_cons_of_mem _ hissued, hkey⟩
  fits r hr := by
    obtain rfl | hr := List.mem_cons.mp hr
    · exact hfits
    · exact h.fits r hr
  extended v hv := by
    have hold : v < w.cache.next ∧ ∀ (k : IdentityId × Bool) (e : Remote),
        k ≠ key remote.provenance → w.cache.entries[k]? = some e → e.revision ≠ v := by
      obtain hv | hv := List.mem_append.mp hv
      · exact hgone v hv
      · exact ⟨(h.extended v hv).1, fun k e _ => (h.extended v hv).2 k e⟩
    refine ⟨Nat.lt_succ_of_lt hold.1, fun k e he => ?_⟩
    obtain ⟨-, rfl⟩ | ⟨hk, he⟩ := install_some he
    · exact Nat.ne_of_gt hold.1
    · exact hold.2 k e hk he

theorem fits_insert {remote : Remote} {id : String} {o : Offering} {bytes : List UInt8}
    {d : Definition} (h : Remote.Fits limits remote) (ho : remote.board.offerings[id]? = some o)
    (hd : Definition.parse bytes o limits = .ok d) :
    Remote.Fits limits { remote with definitions := remote.definitions.insert id d } := by
  intro id' d' hd'
  by_cases hid : id = id'
  · subst hid
    rw [TreeMap.getElem?_insert_self] at hd'
    obtain rfl := Option.some.inj hd'
    exact ⟨o, bytes, ho, hd⟩
  · rw [TreeMap.getElem?_insert, if_neg fun heq => hid (Std.LawfulEqOrd.eq_of_compare heq)] at hd'
    exact h id' d' hd'

theorem fits_empty {board : Board} {provenance : Provenance} {received expires revision : Nat} :
    Remote.Fits limits ⟨board, provenance, received, expires, revision, ∅⟩ := by
  intro id d hd
  rw [TreeMap.getElem?_emptyc] at hd
  cases hd

theorem Inv.step (h : Inv limits w) (hstep : Step w w') : Inv limits w' := by
  cases hstep with
  | @stored env _ _ _ now _ _ _ hrun _ =>
    cases store_stored hrun with
    | done _ =>
      have hkept : Inv limits { w with cache := (w.cache.expire now).retain (env.held 0) } :=
        h.shrink rfl rfl fun k e he => (expire_some he).1
      exact hkept.install fits_empty [] (by simp)
  | unstored hrun =>
    cases store_stored hrun with
    | refused => exact h.shrink rfl rfl fun k e he => he
    | crowded => exact h.shrink rfl rfl fun k e he => (expire_some he).1
  | @attached env _ _ _ _ _ _ _ _ hpresents hrun _ =>
    cases attach_attached hrun with
    | done hextends _ =>
      obtain ⟨he, -⟩ := h.current hpresents hextends.current
      obtain ⟨hissued, -⟩ := h.entries _ _ he
      obtain ⟨id, o, bytes, d, ho, hd, rfl⟩ := hextends.next
      have hkept : Inv limits { w with cache := w.cache.retain (env.held 0) } :=
        h.shrink rfl rfl fun k e he => he
      refine hkept.install (fits_insert (h.fits _ hissued) ho (h.policy ▸ hd)) [_] ?_
      intro v hv
      obtain rfl := List.mem_singleton.mp hv
      refine ⟨h.below _ hissued, fun k e hk he' heq => hk ?_⟩
      -- Another entry with this revision would be the same receipt, under the same key.
      obtain ⟨hissued', rfl⟩ := h.entries k e he'
      rw [h.distinct e hissued' _ hissued heq]
  | unattached _ hrun =>
    cases attach_attached hrun with
    | refused => exact h.shrink rfl rfl fun k e he => he
    | crowded => exact h.shrink rfl rfl fun k e he => he
  | read => exact h.shrink rfl rfl fun k e he => he
  | callers => exact h.shrink rfl rfl fun k e he => he

theorem new_ok {authority : Authority} {c : Cache} (h : Cache.new authority limits = .ok c) :
    limits.validate = .ok () ∧ c = { authority := authority, limits := limits } := by
  obtain ⟨⟨⟩, hvalidate, h⟩ := Outcome.bind_ok.mp h
  exact ⟨lift_ok.mp hvalidate, (Except.ok.inj h).symm⟩

theorem entries_empty {k : IdentityId × Bool} {e : Remote} :
    (∅ : TreeMap (IdentityId × Bool) Remote)[k]? ≠ some e := by
  simp

theorem inv_start {authority : Authority} {c : Cache} (h : Cache.new authority limits = .ok c) :
    Inv limits ⟨c, held, [], []⟩ := by
  obtain ⟨-, rfl⟩ := new_ok h
  exact ⟨rfl, by simp, by simp, fun k e he => absurd he entries_empty, by simp, by simp⟩

theorem inv_reaches {authority : Authority} (h : Reaches authority limits w) : Inv limits w := by
  induction h with
  | start hnew => exact inv_start hnew
  | step _ hstep ih => exact ih.step hstep

structure Attributed (limits : Limits) (w : World) : Prop where
  keys : ∀ (k : IdentityId × Bool) (e : Remote), w.cache.entries[k]? = some e →
    key e.provenance = k ∧ e ∈ w.issued
  definitions : ∀ remote ∈ w.issued, Remote.Fits limits remote
  /-- A definition is attached to the current receipt, which is replaced; nothing else changes. -/
  attach : ∀ env context remote id bytes now next c, w.Presents remote →
    w.cache.attach env context remote id bytes now = (.ok next, c) →
    w.cache.entries[key remote.provenance]? = some remote ∧ remote.revision ∉ w.extended ∧
      c.entries[key remote.provenance]? = some next ∧ next.received = remote.received ∧
      next.expires = remote.expires ∧ next.provenance = remote.provenance ∧
      next.board = remote.board ∧
      ∀ k, k ≠ key remote.provenance → c.entries[k]? = w.cache.entries[k]?
  read : ∀ env context provenance now remote,
    w.cache.read env context provenance now = .ok remote →
    remote.provenance = provenance ∧ remote.received ≤ now ∧ now < remote.expires
  definition : ∀ env context remote id now d, w.Presents remote →
    w.cache.definition env context remote id now = .ok d →
    w.cache.entries[key remote.provenance]? = some remote ∧ remote.received ≤ now ∧
      now < remote.expires ∧ remote.definitions[id]? = some d
  /-- Terms are selected from the current receipt of a publisher that was authenticated. -/
  select : ∀ env context remote r caps now selected, w.Presents remote →
    w.cache.select env context remote r caps now = .ok selected →
    w.cache.entries[key remote.provenance]? = some remote ∧ remote.received ≤ now ∧
      now < remote.expires ∧ ∃ publisher o d, remote.provenance = .direct publisher ∧
      remote.board.offerings[r.id]? = some o ∧ remote.definitions[r.id]? = some d ∧
      Board.select o d publisher r caps = .ok selected
  unstored : ∀ env context provenance bytes now e c,
    w.cache.store env context provenance bytes now = (.error e, c) →
    ∀ (k : IdentityId × Bool) (x : Remote),
      (c.entries[k]? = some x → w.cache.entries[k]? = some x) ∧
      (w.cache.entries[k]? = some x → now < x.expires → c.entries[k]? = some x)
  unattached : ∀ env context remote id bytes now e c,
    w.cache.attach env context remote id bytes now = (.error e, c) →
    c.entries = w.cache.entries

theorem Inv.attach (h : Inv limits w) {env : Surroundings} {context : Context}
    {remote next : Remote} {id : String} {bytes : List UInt8} {now : Nat} {c : Cache}
    (hpresents : w.Presents remote)
    (hrun : w.cache.attach env context remote id bytes now = (.ok next, c)) :
    w.cache.entries[key remote.provenance]? = some remote ∧ remote.revision ∉ w.extended ∧
      c.entries[key remote.provenance]? = some next ∧ next.received = remote.received ∧
      next.expires = remote.expires ∧ next.provenance = remote.provenance ∧
      next.board = remote.board ∧
      ∀ k, k ≠ key remote.provenance → c.entries[k]? = w.cache.entries[k]? := by
  cases attach_attached hrun with
  | done hextends _ =>
    obtain ⟨he, -⟩ := h.current hpresents hextends.current
    obtain ⟨id, o, bytes, d, -, -, rfl⟩ := hextends.next
    refine ⟨he, fun hin => (h.extended _ hin).2 _ _ he rfl, install_self, rfl, rfl, rfl, rfl, ?_⟩
    intro k hk
    rw [Cache.install, TreeMap.getElem?_insert,
      if_neg fun heq => hk (Std.LawfulEqOrd.eq_of_compare heq).symm]
    rfl

theorem store_failed {env : Surroundings} {context : Context} {provenance : Provenance}
    {bytes : List UInt8} {now : Nat} {e : Stop} {c c' : Cache}
    (hrun : c.store env context provenance bytes now = (.error e, c'))
    (k : IdentityId × Bool) (x : Remote) :
    (c'.entries[k]? = some x → c.entries[k]? = some x) ∧
      (c.entries[k]? = some x → now < x.expires → c'.entries[k]? = some x) := by
  cases store_stored hrun with
  | refused => exact ⟨fun h => h, fun h _ => h⟩
  | crowded => exact ⟨fun h => (expire_some h).1, fun h hexpires => expire_kept h hexpires⟩

theorem attach_failed {env : Surroundings} {context : Context} {remote : Remote} {id : String}
    {bytes : List UInt8} {now : Nat} {e : Stop} {c c' : Cache}
    (hrun : c.attach env context remote id bytes now = (.error e, c')) :
    c'.entries = c.entries := by
  cases attach_attached hrun with
  | refused => rfl
  | crowded => rfl

theorem attributed_reaches {authority : Authority} (h : Reaches authority limits w) :
    Attributed limits w := by
  have hinv := inv_reaches h
  constructor
  case keys => exact fun k e he => (hinv.entries k e he).symm
  case definitions => exact hinv.fits
  case attach => exact fun env context remote id bytes now next c => hinv.attach
  case read =>
    intro env context provenance now remote hrun
    obtain ⟨he, hfresh⟩ := read_ok hrun
    exact ⟨key_inj (hinv.entries _ _ he).2, hfresh⟩
  case definition =>
    intro env context remote id now d hpresents hrun
    obtain ⟨hcurrent, hd⟩ := definition_ok hrun
    obtain ⟨he, hreceived, hexpires⟩ := hinv.current hpresents hcurrent
    exact ⟨he, hreceived, hexpires, hd⟩
  case select =>
    intro env context remote r caps now selected hpresents hrun
    obtain ⟨hcurrent, hselected⟩ := select_ok hrun
    obtain ⟨he, hreceived, hexpires⟩ := hinv.current hpresents hcurrent
    exact ⟨he, hreceived, hexpires, hselected⟩
  case unstored => exact fun env context provenance bytes now e c => store_failed
  case unattached => exact fun env context remote id bytes now e c => attach_failed

def sampleCache : Cache := { authority := ⟨0⟩, limits := {} }

def echoRemote (value : Prepared) : Remote :=
  ⟨value.board, .direct Provider.sampleOwner.publisher, 100, 400, 0, ∅⟩

section

variable {value : Prepared}

open Provider (echoSurroundings echoContext echoRequest echoContext_check)

theorem echo_stored (hmade : Prepared.echoOutcome = .ok value) :
    sampleCache.store echoSurroundings (echoContext .cache) (echoRemote value).provenance
      Prepared.echoBoard 100 =
      (.ok (echoRemote value), (sampleCache.install (echoRemote value)).2) := by
  have hlength : Prepared.echoBoard.length ≤ 1000 := by decide +kernel
  obtain ⟨-, -, -, hparse, -⟩ := Prepared.new_ok hmade
  have hvet : sampleCache.vet echoSurroundings (echoContext .cache) (echoRemote value).provenance
      Prepared.echoBoard 100 = .ok (value.board, 400) :=
    bind_ok.mpr ⟨(), echoContext_check .cache hlength, bind_ok.mpr ⟨_, hparse, bind_ok.mpr
      ⟨400, rfl, bind_ok.mpr ⟨(), echoContext_check .cache hlength, rfl⟩⟩⟩⟩
  rw [store, hvet]
  rfl

def echoExtended (value : Prepared) : Remote :=
  { echoRemote value with
    definitions := (∅ : TreeMap String Definition).insert "b" (Prepared.echoDefined "b") }

/-- The receipt is extended by a definition, and terms are selected from the new one. -/
theorem echo_attached (h : value.Echoes) :
    ∃ next c, (sampleCache.install (echoRemote value)).2.attach echoSurroundings
        (echoContext .cache) (echoRemote value) "b" (Prepared.echoDefinition "b") 150 =
        (.ok next, c) ∧
      c.select echoSurroundings (echoContext .select) next echoRequest Prepared.permissive 399 =
        .ok Provider.echoChosen := by
  have ho := h.offerings "b" (by decide)
  have hlength : (Prepared.echoDefinition "b").length = 190 := by decide +kernel
  have hfits : (Prepared.echoDefinition "b").length ≤ 1000 := hlength.le.trans (by decide)
  have hboard := Provider.echo_board h
  have htotal : totalBytes (echoExtended value) = .ok 546 := by
    have hlist : (echoExtended value).definitions.toList = [("b", Prepared.echoDefined "b")] := rfl
    rw [totalBytes, hlist]
    simp [echoExtended, echoRemote, hboard, Prepared.echoDefined, hlength, need, checkedAdd,
      usizeMax]
  have hextend : (sampleCache.install (echoRemote value)).2.extend echoSurroundings
      (echoContext .cache) (echoRemote value) "b" (Prepared.echoDefinition "b") 150 =
      .ok (echoExtended value) := by
    refine bind_ok.mpr ⟨(), echoContext_check .cache hfits, bind_ok.mpr ⟨(), ?_, ?_⟩⟩
    · exact bind_ok.mpr ⟨_, need_ok.mpr install_self, rfl⟩
    · exact bind_ok.mpr ⟨_, need_ok.mpr ho, bind_ok.mpr
        ⟨_, Prepared.echo_definition_parse "b" (by decide), bind_ok.mpr ⟨_, htotal, rfl⟩⟩⟩
  have hattach : (sampleCache.install (echoRemote value)).2.attach echoSurroundings
      (echoContext .cache) (echoRemote value) "b" (Prepared.echoDefinition "b") 150 =
      (.ok { echoExtended value with revision := 1 },
        ((sampleCache.install (echoRemote value)).2.install (echoExtended value)).2) := by
    have hcheck : (echoContext .cache).check
        ((sampleCache.install (echoRemote value)).2.retain (echoSurroundings.held 0)).authority
        (echoSurroundings.moment 1) (key (echoRemote value).provenance).1 .cache
        (Prepared.echoDefinition "b").length = .ok () := echoContext_check .cache hfits
    simp only [attach, hextend, hcheck]
    rfl
  refine ⟨_, _, hattach, bind_ok.mpr ⟨(), ?_, ?_⟩⟩
  · exact bind_ok.mpr ⟨_, need_ok.mpr install_self, rfl⟩
  · refine bind_ok.mpr ⟨(), echoContext_check .select (hboard.le.trans (by decide)), ?_⟩
    refine bind_ok.mpr ⟨_, need_ok.mpr ho, bind_ok.mpr ⟨_, need_ok.mpr ?_, Provider.echo_chosen⟩⟩
    exact TreeMap.getElem?_insert_self

end

theorem echo_reaches : ∃ w next, Reaches ⟨0⟩ {} w ∧ next ∈ w.issued ∧
    0 < w.held next.revision ∧
    w.cache.select Provider.echoSurroundings (Provider.echoContext .select) next
      Provider.echoRequest Prepared.permissive 399 = .ok Provider.echoChosen := by
  obtain ⟨value, hmade, hechoes⟩ := Prepared.echo_prepared
  obtain ⟨next, c, hattach, hselect⟩ := echo_attached hechoes
  have hidle : ∀ held, Provider.echoSurroundings.Follows held fun _ => 0 :=
    fun held => ⟨fun _ _ => rfl, fun _ _ => rfl, fun _ _ => rfl⟩
  have hstart : Reaches ⟨0⟩ {} ⟨sampleCache, fun _ => 0, [], []⟩ := .start rfl
  have hstored := Reaches.step hstart (.stored (echo_stored hmade) (hidle _))
  have hattached := Reaches.step hstored (.attached (.inl List.mem_cons_self) hattach (hidle _))
  exact ⟨_, next, hattached, List.mem_cons_self, by simp [Held.receive], hselect⟩

theorem attributed_reaches_sample : ∃ w next, Reaches ⟨0⟩ {} w ∧ next ∈ w.issued ∧
    w.cache.select Provider.echoSurroundings (Provider.echoContext .select) next
      Provider.echoRequest Prepared.permissive 399 = .ok Provider.echoChosen ∧ Attributed {} w := by
  obtain ⟨w, next, hreaches, hissued, -, hselect⟩ := echo_reaches
  exact ⟨w, next, hreaches, hissued, hselect, attributed_reaches hreaches⟩

/-! Retention. -/

/-- The receipts that are alive are pinned, and neither they nor the entries exceed their
limit. -/
structure Kept (w : World) : Prop where
  tracked : Retention.Tracked w.cache.own w.held w.cache.pins w.cache.limits.snapshots
  size : w.cache.entries.size ≤ w.cache.limits.cacheEntries

section

variable {env : Surroundings} {after : Held} {c : Cache}

theorem own_pos_of_sub (hsub : Below c w.cache) {r : Nat} (h : 0 < c.own r) :
    0 < w.cache.own r := by
  obtain ⟨k, e, he, hr⟩ := own_pos.mp h
  exact own_pos.mpr ⟨k, e, hsub k e he, hr⟩

theorem Kept.mem_pins (h : Kept w) (hfollows : env.Follows w.held after)
    (hpins : c.pins = w.cache.pins) (hsub : Below c w.cache) {r : Nat}
    (hr : r ∈ Retention.Alive c.own after) : r ∈ (c.retain (env.held 0)).pins := by
  obtain ⟨hfirst, hbefore⟩ := hfollows.alive hr
  have halive : r ∈ Retention.Alive w.cache.own w.held :=
    alive_iff.mpr ((alive_iff.mp hbefore).imp_left (own_pos_of_sub hsub))
  exact mem_retained (hpins ▸ h.tracked.listed r halive) hfirst

theorem Kept.shrink (h : Kept w) (hfollows : env.Follows w.held after)
    (hpins : c.pins = w.cache.pins) (hlimits : c.limits = w.cache.limits)
    (hsub : Below c w.cache) (hsize : c.entries.size ≤ w.cache.entries.size) :
    Kept { w with cache := c.retain (env.held 0), held := after } where
  tracked := by
    have hbound := h.tracked.bounded
    rw [← hlimits] at hbound
    constructor
    case listed => exact fun r hr => h.mem_pins hfollows hpins hsub hr
    case bounded =>
      refine (Set.encard_le_encard fun r hr => ?_).trans hbound
      exact alive_iff.mpr
        ((alive_iff.mp (hfollows.alive hr).2).imp_left (own_pos_of_sub hsub))
  size := hlimits ▸ hsize.trans h.size

theorem released_gone (hinv : Inv limits w) (h : Kept w) (hfollows : env.Follows w.held after)
    (hpins : c.pins = w.cache.pins) (hsub : Below c w.cache) {k : IdentityId × Bool} {r : Nat}
    (hr : (c.retain (env.held 0)).released (env.held 1) k = some r) :
    r ∈ (c.retain (env.held 0)).pins ∧ after r = 0 ∧
      ∀ (k' : IdentityId × Bool) (e : Remote), c.entries[k']? = some e → e.revision = r →
        k' = k := by
  obtain ⟨e, he, rfl⟩ := Option.map_eq_some_iff.mp hr
  obtain ⟨he, hone⟩ := Option.filter_eq_some_iff.mp he
  have hown : 0 < c.own e.revision := own_pos.mpr ⟨k, e, he, rfl⟩
  have hstrong : c.own e.revision + env.held 1 e.revision = 1 := of_decide_eq_true hone
  obtain ⟨hissued, hkey⟩ := hinv.entries k e (hsub k e he)
  refine ⟨h.mem_pins hfollows hpins hsub (alive_iff.mpr (.inl hown)),
    hfollows.2.2 _ (by omega), fun k' e' he' heq => ?_⟩
  obtain ⟨hissued', hkey'⟩ := hinv.entries k' e' (hsub k' e' he')
  rw [← hkey', ← hkey, hinv.distinct e' hissued' e hissued heq]

theorem alive_install {remote : Remote} {r : Nat}
    (hr : r ∈ Retention.Alive (c.install remote).2.own (after.receive c.next)) :
    r = c.next ∨ 0 < after r ∨ ∃ (k : IdentityId × Bool) (e : Remote),
      k ≠ key remote.provenance ∧ c.entries[k]? = some e ∧ e.revision = r := by
  obtain hown | hheld := alive_iff.mp hr
  · obtain ⟨k, e, he, rfl⟩ := own_pos.mp hown
    obtain ⟨-, rfl⟩ | ⟨hk, he⟩ := install_some he
    · exact .inl rfl
    · exact .inr (.inr ⟨k, e, hk, he, rfl⟩)
  · exact (receive_pos hheld).imp_right .inl

theorem Kept.stored (hinv : Inv limits w) (h : Kept w) (hfollows : env.Follows w.held after)
    {now : Nat} {remote : Remote}
    (hroom : ¬ ((w.cache.expire now).retain (env.held 0)).full (env.held 1)
      (key remote.provenance)) {issued : List Remote} {extended : List Nat} :
    Kept ⟨(((w.cache.expire now).retain (env.held 0)).install remote).2,
      after.receive w.cache.next, issued, extended⟩ := by
  obtain ⟨hsize, hpins⟩ := not_or.mp hroom
  have hsub : Below (w.cache.expire now) w.cache := fun k e he => (expire_some he).1
  have hpinned : (w.cache.expire now).pins = w.cache.pins := rfl
  constructor
  case tracked =>
    apply tracked_of_room (Nat.lt_of_not_le hpins) fun r hr =>
      (released_gone hinv h hfollows hpinned hsub hr).1
    intro r hr
    obtain heq | hafter | ⟨k, e, hk, he, rfl⟩ := alive_install hr
    · exact .inl heq
    · refine .inr ⟨h.mem_pins hfollows hpinned hsub (alive_iff.mpr (.inr hafter)), fun hgone => ?_⟩
      exact absurd (released_gone hinv h hfollows hpinned hsub hgone).2.1 (Nat.ne_of_gt hafter)
    · have hown := own_pos.mpr ⟨k, e, he, rfl⟩
      refine .inr ⟨h.mem_pins hfollows hpinned hsub (alive_iff.mpr (.inl hown)),
        fun hgone => hk ?_⟩
      exact (released_gone hinv h hfollows hpinned hsub hgone).2.2 k e he rfl
  case size =>
    have hle : (w.cache.expire now).entries.size ≤ w.cache.limits.cacheEntries :=
      TreeMap.size_filter_le_size.trans h.size
    have hsize' : ¬ ((w.cache.expire now).entries.contains (key remote.provenance) = false ∧
      (w.cache.expire now).entries.size ≥ w.cache.limits.cacheEntries) := hsize
    show (TreeMap.insert _ _ _).size ≤ _
    rw [TreeMap.size_insert]
    split_ifs with hcontains
    · exact hle
    · exact Nat.lt_of_not_le fun hge => hsize' ⟨Bool.eq_false_iff.mpr hcontains, hge⟩

theorem Kept.attached (h : Kept w) (hfollows : env.Follows w.held after)
    {remote next : Remote} {now : Nat} (hextends : Extends w.cache remote next now)
    (hroom : (w.cache.retain (env.held 0)).pins.length < w.cache.limits.snapshots)
    {issued : List Remote} {extended : List Nat} :
    Kept ⟨((w.cache.retain (env.held 0)).install next).2, after.receive w.cache.next, issued,
      extended⟩ := by
  have hsub : Below w.cache w.cache := fun k e he => he
  constructor
  case tracked =>
    have hfree : (w.cache.retain (env.held 0)).pins.length - (none : Option Nat).toList.length <
        w.cache.limits.snapshots := hroom
    apply tracked_of_room hfree (by simp)
    intro r hr
    obtain heq | hafter | ⟨k, e, hk, he, rfl⟩ := alive_install hr
    · exact .inl heq
    · exact .inr ⟨h.mem_pins hfollows rfl hsub (alive_iff.mpr (.inr hafter)), by simp⟩
    · exact .inr ⟨h.mem_pins hfollows rfl hsub (alive_iff.mpr (.inl (own_pos.mpr ⟨k, e, he, rfl⟩))),
        by simp⟩
  case size =>
    obtain ⟨⟨e, he, -⟩, -⟩ := current_ok hextends.current
    obtain ⟨id, o, bytes, d, -, -, rfl⟩ := hextends.next
    show (TreeMap.insert _ _ _).size ≤ _
    rw [TreeMap.size_insert, if_pos]
    · exact h.size
    · rw [TreeMap.contains_eq_isSome_getElem?]
      exact Option.isSome_iff_exists.mpr ⟨e, he⟩

theorem Kept.onward (h : Kept w) (hon : Onward w.held after) : Kept { w with held := after } :=
  ⟨h.tracked.onward hon fun _ hr => hr, h.size⟩

theorem Kept.step (hinv : Inv limits w) (h : Kept w) (hstep : Step w w') : Kept w' := by
  cases hstep with
  | stored hrun hfollows =>
    cases store_stored hrun with
    | done hroom => exact h.stored hinv hfollows hroom
  | unstored hrun hfollows =>
    cases store_stored hrun with
    | refused => exact h.onward hfollows.onward
    | crowded =>
      exact h.shrink hfollows rfl rfl (fun k e he => (expire_some he).1)
        TreeMap.size_filter_le_size
  | attached _ hrun hfollows =>
    cases attach_attached hrun with
    | done hextends hroom => exact h.attached hfollows hextends hroom
  | unattached _ hrun hfollows =>
    cases attach_attached hrun with
    | refused => exact h.onward hfollows.onward
    | crowded => exact h.shrink hfollows rfl rfl (fun k e he => he) (Nat.le_refl _)
  | read hrun hfollows =>
    have hkept := h.onward hfollows.onward
    have hown := own_pos.mpr ⟨_, _, (read_ok hrun).1, rfl⟩
    exact ⟨hkept.tracked.receive hown, hkept.size⟩
  | callers hon => exact h.onward hon

theorem kept_reaches {authority : Authority} (h : Reaches authority limits w) : Kept w := by
  induction h with
  | start hnew =>
    obtain ⟨-, rfl⟩ := new_ok hnew
    constructor
    case tracked =>
      apply tracked_empty
      intro r hr
      obtain ⟨k, e, he, -⟩ := own_pos.mp hr
      exact entries_empty he
    case size => exact Nat.zero_le _
  | step h hstep ih => exact ih.step (inv_reaches h) hstep

/-- However callers keep and copy receipts, no more are alive than the limit, nor are there more
entries than theirs. -/
theorem receipts_bounded {authority : Authority} (h : Reaches authority limits w) :
    (Retention.Alive w.cache.own w.held).encard ≤ limits.snapshots ∧
      w.cache.entries.size ≤ limits.cacheEntries := by
  have hkept := kept_reaches h
  rw [← (inv_reaches h).policy]
  exact ⟨hkept.tracked.bounded, hkept.size⟩

end

end Cache

/-- The revisions of an owner and the receipts of a cache, in any two runs. -/
theorem retention_bounded {σ : Type} {P : Persistence σ} {publisher : IdentityId}
    {authority authority' : Authority} {limits limits' : Limits} {domain : Nat}
    {caps : Capabilities} {storage : σ} {p : Provider} {s₀ : State σ} {w : World σ}
    {w' : Cache.World}
    (hopened : Provider.openWith P publisher authority limits domain caps storage = .ok (p, s₀))
    (h : Provider.Reaches p P s₀ w) (h' : Cache.Reaches authority' limits' w') :
    (Retention.Alive w.state.own w.held).encard ≤ limits.snapshots ∧
      (Retention.Alive w'.cache.own w'.held).encard ≤ limits'.snapshots ∧
      w'.cache.entries.size ≤ limits'.cacheEntries :=
  ⟨Provider.revisions_bounded hopened h, Cache.receipts_bounded h'⟩

theorem retention_bounded_echo : ∃ (w : World (Option Record × Bool)) (w' : Cache.World),
    (∃ r, r ∈ Retention.Alive w.state.own w.held) ∧
    (∃ r, r ∈ Retention.Alive w'.cache.own w'.held) ∧
    (Retention.Alive w.state.own w.held).encard ≤ (128 : Nat) ∧
    (Retention.Alive w'.cache.own w'.held).encard ≤ (128 : Nat) ∧ w'.cache.entries.size ≤ 64 := by
  have hopen : Provider.openWith Provider.wavering Provider.sampleOwner.publisher ⟨0⟩ {} 0
      .unavailable (none, true) = .ok (Provider.sampleOwner, { storage := (none, true) }) := rfl
  obtain ⟨value, hmade, hechoes⟩ := Prepared.echo_prepared
  obtain ⟨w', next, hreaches, -, hheld, -⟩ := Cache.echo_reaches
  refine ⟨_, w', ⟨0, ?_⟩, ⟨_, alive_iff.mpr (.inr hheld)⟩,
    retention_bounded hopen (Provider.echo_reaches hmade hechoes) hreaches⟩
  exact alive_iff.mpr (.inl Nat.one_pos)

end TalkSphere.Board
