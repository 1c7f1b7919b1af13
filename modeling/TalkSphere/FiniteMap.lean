import Mathlib.Data.List.Perm.Subperm
import Mathlib.Logic.Function.Basic
import Std.Data.TreeMap

/-! Ordered finite maps seen as partial functions, and what a fold or a filter
over their entries says about one key. -/

namespace FiniteMap

open Std (TreeMap TransOrd LawfulEqOrd)

variable {κ α : Type} [Ord κ] [TransOrd κ] [LawfulEqOrd κ] [DecidableEq κ]

theorem lookup_insert (m : TreeMap κ α) (k : κ) (v : α) :
    (fun j => (m.insert k v)[j]?) = Function.update (fun j => m[j]?) k (some v) := by
  funext j
  by_cases h : j = k
  · subst h; simp
  · simp [TreeMap.getElem?_insert, h, Ne.symm h]

theorem lookup_erase (m : TreeMap κ α) (k : κ) :
    (fun j => (m.erase k)[j]?) = Function.update (fun j => m[j]?) k none := by
  funext j
  by_cases h : j = k
  · subst h; simp
  · simp [TreeMap.getElem?_erase, h, Ne.symm h]

theorem getElem?_foldl_erase (keys : List κ) (m : TreeMap κ α) (k : κ) :
    (keys.foldl (fun m k => m.erase k) m)[k]? = if k ∈ keys then none else m[k]? := by
  induction keys generalizing m with
  | nil => simp
  | cons a keys ih =>
    rw [List.foldl_cons, ih]
    by_cases hk : k ∈ keys
    · simp [hk]
    · by_cases ha : k = a
      · subst ha; simp
      · simp [hk, ha, TreeMap.getElem?_erase, Ne.symm ha]

omit [DecidableEq κ] [LawfulEqOrd κ] in
theorem size_pos {m : TreeMap κ α} {k : κ} (h : m.contains k = true) : 0 < m.size := by
  have he := TreeMap.isEmpty_eq_false_of_contains h
  rw [TreeMap.isEmpty_eq_size_eq_zero, beq_eq_false_iff_ne] at he
  exact Nat.pos_of_ne_zero he

omit [DecidableEq κ] in
theorem size_foldl_erase {keys : List κ} {m : TreeMap κ α} (hd : keys.Nodup)
    (hm : ∀ k ∈ keys, m.contains k = true) :
    (keys.foldl (fun m k => m.erase k) m).size + keys.length = m.size := by
  induction keys generalizing m with
  | nil => rfl
  | cons a keys ih =>
    obtain ⟨ha, hd⟩ := List.nodup_cons.mp hd
    have hin := hm a List.mem_cons_self
    have hpos := size_pos hin
    have hi := ih hd fun k hk => by
      have hne : compare a k ≠ .eq := fun he => ha (Std.compare_eq_iff_eq.mp he ▸ hk)
      rw [TreeMap.contains_erase, hm k (List.mem_cons_of_mem _ hk), Bool.and_true, bne_iff_ne]
      exact hne
    rw [TreeMap.size_erase, if_pos hin] at hi
    rw [List.foldl_cons, List.length_cons]
    omega

omit [DecidableEq κ] in
theorem toList_insert_of_isEmpty {m : TreeMap κ α} (h : m.isEmpty = true) (k : κ) (v : α) :
    (m.insert k v).toList = [(k, v)] := by
  have hc : m.contains k = false := by
    cases hk : m.contains k with
    | false => rfl
    | true => rw [TreeMap.isEmpty_eq_false_of_contains hk] at h; cases h
  have hl : (m.insert k v).toList.length = 1 := by
    rw [TreeMap.isEmpty_eq_size_eq_zero, beq_iff_eq] at h
    rw [TreeMap.length_toList, TreeMap.size_insert, hc, h]
    rfl
  have hm : (k, v) ∈ (m.insert k v).toList := by
    rw [TreeMap.mem_toList_iff_getElem?_eq_some, TreeMap.getElem?_insert_self]
  obtain ⟨e, he⟩ := List.length_eq_one_iff.mp hl
  rw [he, List.mem_singleton] at hm
  rw [he, hm]

omit [DecidableEq κ] in
theorem pairwise_keys_ne (m : TreeMap κ α) : m.toList.Pairwise (fun a b => a.1 ≠ b.1) :=
  TreeMap.distinct_keys_toList.imp (fun h he => h (by simp [he]))

theorem filter_toList_key (m : TreeMap κ α) (k : κ) :
    m.toList.filter (fun e => e.1 = k) = (m[k]?.map fun v => (k, v)).toList := by
  have hd : (m.toList.filter fun e => e.1 = k).Pairwise (fun a b => a.1 ≠ b.1) :=
    (pairwise_keys_ne m).sublist List.filter_sublist
  have hm : ∀ e, e ∈ m.toList.filter (fun e => e.1 = k) ↔ e.1 = k ∧ m[k]? = some e.2 := by
    intro ⟨a, v⟩
    rw [List.mem_filter, TreeMap.mem_toList_iff_getElem?_eq_some]
    constructor
    · rintro ⟨h, ha⟩
      simp only [decide_eq_true_eq] at ha
      subst ha
      exact ⟨rfl, h⟩
    · rintro ⟨ha, h⟩
      simp only at ha
      subst ha
      exact ⟨h, by simp⟩
  match hl : m.toList.filter (fun e => e.1 = k) with
  | [] =>
    cases hv : m[k]? with
    | none => rw [hl]; rfl
    | some v =>
      have := (hm (k, v)).mpr ⟨rfl, hv⟩
      simp [hl] at this
  | [e] =>
    have he := (hm e).mp (by simp [hl])
    rw [hl, he.2, ← he.1]
    rfl
  | a :: b :: rest =>
    rw [hl] at hd
    have ha := ((hm a).mp (by simp [hl])).1
    have hb := ((hm b).mp (by simp [hl])).1
    exact absurd (ha.trans hb.symm) ((List.pairwise_cons.mp hd).1 b (by simp))

variable {β γ : Type}

omit [DecidableEq κ] in
theorem perm_of_lookup_eq {m : TreeMap κ α} {m' : TreeMap κ β} (f : α → γ) (g : β → γ)
    (h : ∀ k : κ, m[k]?.map f = m'[k]?.map g) :
    (m.toList.map fun e => (e.1, f e.2)).Perm (m'.toList.map fun e => (e.1, g e.2)) := by
  have nodup : ∀ {δ : Type} (m : TreeMap κ δ) (f : δ → γ), (m.toList.map fun e => (e.1, f e.2)).Nodup :=
    fun m f => List.pairwise_map.mpr ((pairwise_keys_ne m).imp fun hne he => hne (Prod.mk.inj he).1)
  have mem : ∀ {δ : Type} (m : TreeMap κ δ) (f : δ → γ) (k : κ) (c : γ),
      (k, c) ∈ (m.toList.map fun e => (e.1, f e.2)) ↔ m[k]?.map f = some c := by
    intro δ m f k c
    simp only [List.mem_map, Prod.mk.injEq, Prod.exists, Option.map_eq_some_iff,
      TreeMap.mem_toList_iff_getElem?_eq_some]
    constructor
    · rintro ⟨_, v, hv, rfl, rfl⟩
      exact ⟨v, hv, rfl⟩
    · rintro ⟨v, hv, rfl⟩
      exact ⟨k, v, hv, rfl, rfl⟩
  refine (List.perm_ext_iff_of_nodup (nodup m f) (nodup m' g)).mpr fun e => ?_
  rw [mem m f e.1 e.2, mem m' g e.1 e.2, h]

omit [DecidableEq κ] in
theorem contains_of_size_le {m : TreeMap κ α} {m' : TreeMap κ β}
    (hsub : ∀ k, m.contains k = true → m'.contains k = true) (hsize : m'.size ≤ m.size) {k : κ}
    (hk : m'.contains k = true) : m.contains k = true := by
  have nodup : ∀ {δ : Type} (m : TreeMap κ δ), m.keys.Nodup := by
    intro δ m
    exact TreeMap.distinct_keys.imp fun hne he => hne (by simp [he])
  have hkeys : m.keys ⊆ m'.keys := fun x hx => by
    rw [TreeMap.mem_keys, ← TreeMap.contains_iff_mem] at hx ⊢
    exact hsub x hx
  have hperm := ((nodup m).subperm hkeys).perm_of_length_le (by simpa using hsize)
  rw [TreeMap.contains_iff_mem, ← TreeMap.mem_keys] at hk ⊢
  exact hperm.mem_iff.mpr hk

omit [DecidableEq κ] in
theorem equiv_of_lookup_eq {m m' : TreeMap κ α} (h : ∀ k : κ, m[k]? = m'[k]?) : m.Equiv m' := by
  have hperm : (m.toList.map fun e => (e.1, e.2)).Perm (m'.toList.map fun e => (e.1, e.2)) :=
    perm_of_lookup_eq (fun a => a) (fun a => a) fun k => by rw [h k]
  exact TreeMap.Equiv.of_toList_perm (by simpa using hperm)

/-! Values kept under a key of their own. -/

section

variable {key : α → κ} {m : TreeMap κ α}

def Keyed (key : α → κ) (m : TreeMap κ α) : Prop := ∀ k a, m[k]? = some a → key a = k

omit [DecidableEq κ] [LawfulEqOrd κ] in
theorem Keyed.empty : Keyed key (∅ : TreeMap κ α) := by
  intro k a h
  simp at h

theorem Keyed.insert (h : Keyed key m) (a : α) : Keyed key (m.insert (key a) a) := by
  intro k b hb
  by_cases hk : k = key a
  · subst hk
    rw [TreeMap.getElem?_insert_self] at hb
    rw [Option.some.inj hb]
  · rw [TreeMap.getElem?_insert, if_neg (by simpa using Ne.symm hk)] at hb
    exact h k b hb

omit [DecidableEq κ] in
theorem Keyed.mem_values (h : Keyed key m) {a : α} :
    a ∈ m.toList.map Prod.snd ↔ m[key a]? = some a := by
  rw [List.mem_map]
  constructor
  · rintro ⟨⟨k, b⟩, hmem, rfl⟩
    rw [TreeMap.mem_toList_iff_getElem?_eq_some] at hmem
    rwa [h k b hmem]
  · exact fun ha => ⟨(key a, a), TreeMap.mem_toList_iff_getElem?_eq_some.mpr ha, rfl⟩

omit [DecidableEq κ] in
theorem Keyed.sorted (h : Keyed key m) :
    (m.toList.map Prod.snd).Pairwise fun a b => compare (key a) (key b) = .lt := by
  refine List.pairwise_map.mpr (TreeMap.ordered_keys_toList.imp_of_mem ?_)
  intro a b ha hb hlt
  rw [h a.1 a.2 (TreeMap.mem_toList_iff_getElem?_eq_some.mp ha),
    h b.1 b.2 (TreeMap.mem_toList_iff_getElem?_eq_some.mp hb)]
  exact hlt

def collect (key : α → κ) (items : List α) : TreeMap κ α :=
  items.foldl (fun m a => m.insert (key a) a) ∅

theorem keyed_collect (items : List α) : Keyed key (collect key items) := by
  suffices h : ∀ m, Keyed key m → Keyed key (items.foldl (fun m a => m.insert (key a) a) m) from
    h ∅ Keyed.empty
  induction items with
  | nil => exact fun m h => h
  | cons a items ih => exact fun m h => ih _ (h.insert a)

theorem getElem?_foldl_insert {value : α → β} {items : List α} (hd : (items.map key).Nodup)
    (m : TreeMap κ β) (k : κ) (b : β) :
    (items.foldl (fun m a => m.insert (key a) (value a)) m)[k]? = some b ↔
      (∃ a ∈ items, key a = k ∧ value a = b) ∨ (m[k]? = some b ∧ k ∉ items.map key) := by
  induction items generalizing m with
  | nil => simp
  | cons first items ih =>
    obtain ⟨hfirst, hd⟩ := List.nodup_cons.mp hd
    rw [List.foldl_cons, ih hd, List.exists_mem_cons_iff, List.map_cons, List.mem_cons]
    by_cases hk : k = key first
    · subst hk
      rw [TreeMap.getElem?_insert_self]
      constructor
      · rintro (⟨a, ha, hkey, hvalue⟩ | ⟨hsome, -⟩)
        · exact .inl (.inr ⟨a, ha, hkey, hvalue⟩)
        · exact .inl (.inl ⟨rfl, Option.some.inj hsome⟩)
      · rintro ((⟨-, rfl⟩ | ⟨a, ha, hkey, hvalue⟩) | ⟨-, hne⟩)
        · exact .inr ⟨rfl, hfirst⟩
        · exact .inl ⟨a, ha, hkey, hvalue⟩
        · exact absurd (.inl rfl) hne
    · have hinsert : (m.insert (key first) (value first))[k]? = m[k]? := by
        rw [TreeMap.getElem?_insert, if_neg (by simpa using Ne.symm hk)]
      rw [hinsert]
      constructor
      · rintro (⟨a, ha, hkey, hvalue⟩ | ⟨hm, hne⟩)
        · exact .inl (.inr ⟨a, ha, hkey, hvalue⟩)
        · exact .inr ⟨hm, not_or.mpr ⟨hk, hne⟩⟩
      · rintro ((⟨hkey, -⟩ | ⟨a, ha, hkey, hvalue⟩) | ⟨hm, hne⟩)
        · exact absurd hkey.symm hk
        · exact .inl ⟨a, ha, hkey, hvalue⟩
        · exact .inr ⟨hm, (not_or.mp hne).2⟩

theorem collect_perm {items : List α} (hd : (items.map key).Nodup) :
    ((collect key items).toList.map Prod.snd).Perm items := by
  have hkeyed : Keyed key (collect key items) := keyed_collect items
  have hnodup : ((collect key items).toList.map Prod.snd).Nodup := by
    refine hkeyed.sorted.imp ?_
    rintro a b hlt rfl
    rw [Std.compare_self] at hlt
    cases hlt
  have hitems : items.Nodup := (List.pairwise_map.mp hd).imp fun hne he => hne (congrArg key he)
  refine (List.perm_ext_iff_of_nodup hnodup hitems).mpr fun a => ?_
  rw [hkeyed.mem_values]
  refine (getElem?_foldl_insert hd ∅ (key a) a).trans ?_
  constructor
  · rintro (⟨b, hb, -, rfl⟩ | ⟨hempty, -⟩)
    · exact hb
    · simp at hempty
  · exact fun ha => .inl ⟨a, ha, rfl, rfl⟩

end

theorem refill (m : TreeMap κ α) :
    (m.toList.foldl (fun (m : TreeMap κ α) e => m.insert e.1 e.2) ∅).Equiv m := by
  have hdistinct : (m.toList.map Prod.fst).Nodup := List.pairwise_map.mpr (pairwise_keys_ne m)
  refine equiv_of_lookup_eq fun k => Option.ext fun a => ?_
  refine (getElem?_foldl_insert hdistinct ∅ k a).trans ?_
  constructor
  · rintro (⟨e, he, rfl, rfl⟩ | ⟨hempty, -⟩)
    · exact TreeMap.mem_toList_iff_getElem?_eq_some.mp he
    · simp at hempty
  · exact fun hk => .inl ⟨(k, a), TreeMap.mem_toList_iff_getElem?_eq_some.mpr hk, rfl, rfl⟩

end FiniteMap
