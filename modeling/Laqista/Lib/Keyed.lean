import Mathlib.Data.Finmap
import Mathlib.Tactic.Common

/-! # Unordered maps whose values know their key

A `Keyed key` is a finite map in which every value `t` is stored under `key t`. The map has no
order; what a loop over it sees is an *iteration order*, any list with the map's values
(`Iter`). The order is not part of the map, so a function that iterates takes it as an argument.

* `insert`, `upsert`: a value under its own key, replacing or changing what is there.
* `restrict`: the values under given keys; `ofList`: a map collected from a list, later values
  replacing earlier ones.
* `iter_ofList`: collecting the values of a map in any order gives the map back. -/

namespace Laqista.Lib

variable {κ τ : Type} [DecidableEq κ]

/-- A finite map that stores every value under its own key. -/
structure Keyed (key : τ → κ) where
  map : Finmap fun _ : κ => τ
  keyed : ∀ k t, map.lookup k = some t → key t = k

variable {key : τ → κ}

namespace Keyed

theorem ext_map {m n : Keyed key} (h : m.map = n.map) : m = n := by
  cases m; cases n; cases h; rfl

instance [DecidableEq τ] : DecidableEq (Keyed key) := fun m n =>
  decidable_of_iff (m.map = n.map) ⟨ext_map, fun h => h ▸ rfl⟩

/-- The value stored under a key. -/
def lookup (m : Keyed key) (k : κ) : Option τ := m.map.lookup k

/-- The keys of the map. -/
def ids (m : Keyed key) : Finset κ := m.map.keys

/-- The map without entries. -/
def empty (key : τ → κ) : Keyed key := ⟨∅, by simp⟩

/-- Store a value under its key, in the place of any other. -/
def insert (m : Keyed key) (t : τ) : Keyed key where
  map := m.map.insert (key t) t
  keyed := by
    intro k u h
    by_cases hk : k = key t
    · subst hk
      rw [Finmap.lookup_insert] at h
      cases h; rfl
    · rw [Finmap.lookup_insert_of_ne _ hk] at h
      exact m.keyed k u h

/-- Change the value under the key of `t` if there is one, store `t` otherwise. -/
def upsert (m : Keyed key) (t : τ) (f : τ → τ) : Keyed key :=
  m.insert (match m.lookup (key t) with
    | some old => f old
    | none => t)

/-- The values under the given keys. -/
def restrict (m : Keyed key) (ks : List κ) : Keyed key :=
  (ks.filterMap m.lookup).foldl insert (empty key)

/-- The map collected from a list. -/
def ofList (ts : List τ) : Keyed key := ts.foldl insert (empty key)

/-- **Iteration orders**: `it` lists the values of the map, each once. -/
def Iter (m : Keyed key) (it : List τ) : Prop :=
  m.map.entries = ((it.map fun t => (⟨key t, t⟩ : Sigma fun _ : κ => τ) : List _) : Multiset _)

instance [DecidableEq τ] (m : Keyed key) (it : List τ) : Decidable (m.Iter it) := by
  unfold Iter; infer_instance

/-! ### Lookup -/

theorem ext {m n : Keyed key} (h : ∀ k, m.lookup k = n.lookup k) : m = n :=
  ext_map (Finmap.ext_lookup h)

theorem key_of_lookup {m : Keyed key} {k : κ} {t : τ} (h : m.lookup k = some t) : key t = k :=
  m.keyed k t h

@[simp] theorem lookup_empty (k : κ) : (empty key).lookup k = none := Finmap.lookup_empty k

theorem lookup_insert (m : Keyed key) (t : τ) (k : κ) :
    (m.insert t).lookup k = if k = key t then some t else m.lookup k := by
  unfold lookup insert
  by_cases hk : k = key t
  · subst hk; simp
  · rw [if_neg hk]; exact Finmap.lookup_insert_of_ne _ hk

@[simp] theorem lookup_insert_self (m : Keyed key) (t : τ) :
    (m.insert t).lookup (key t) = some t := by
  rw [lookup_insert, if_pos rfl]

theorem mem_ids {m : Keyed key} {k : κ} : k ∈ m.ids ↔ ∃ t, m.lookup k = some t := by
  unfold ids lookup
  rw [Finmap.mem_keys, Finmap.mem_iff]

theorem mem_ids_of_lookup {m : Keyed key} {k : κ} {t : τ} (h : m.lookup k = some t) : k ∈ m.ids :=
  mem_ids.mpr ⟨t, h⟩

theorem lookup_eq_none {m : Keyed key} {k : κ} : m.lookup k = none ↔ k ∉ m.ids := by
  rw [mem_ids, not_exists]
  cases m.lookup k <;> simp

@[simp] theorem ids_empty : (empty key).ids = ∅ := rfl

theorem lookup_upsert {m : Keyed key} {t : τ} {f : τ → τ} (hf : ∀ u, key (f u) = key u) (k : κ) :
    (m.upsert t f).lookup k =
      if k = key t then some ((m.lookup (key t)).elim t f) else m.lookup k := by
  unfold upsert
  rw [lookup_insert]
  rcases h : m.lookup (key t) with _ | old
  · rfl
  · simp only [Option.elim]
    rw [hf, key_of_lookup h]

theorem mem_ids_upsert {m : Keyed key} {t : τ} {f : τ → τ} (hf : ∀ u, key (f u) = key u) {k : κ} :
    k ∈ (m.upsert t f).ids ↔ k = key t ∨ k ∈ m.ids := by
  rw [mem_ids, mem_ids]
  simp only [lookup_upsert hf]
  by_cases hk : k = key t
  · simp [hk]
  · simp [hk]

/-! ### Iteration orders -/

theorem Iter.mem {m : Keyed key} {it : List τ} (h : m.Iter it) {t : τ} :
    t ∈ it ↔ m.lookup (key t) = some t := by
  unfold lookup
  rw [Finmap.lookup_eq_some_iff, h, Multiset.mem_coe, List.mem_map]
  constructor
  · intro ht
    exact ⟨t, ht, rfl⟩
  · rintro ⟨u, hu, he⟩
    have : u = t := congrArg Sigma.snd he
    rwa [← this]

theorem Iter.lookup {m : Keyed key} {it : List τ} (h : m.Iter it) {t : τ} (ht : t ∈ it) :
    m.lookup (key t) = some t := h.mem.mp ht

theorem Iter.mem_of_lookup {m : Keyed key} {it : List τ} (h : m.Iter it) {k : κ} {t : τ}
    (ht : m.lookup k = some t) : t ∈ it := by
  refine h.mem.mpr ?_
  rw [key_of_lookup ht]; exact ht

theorem Iter.nodup {m : Keyed key} {it : List τ} (h : m.Iter it) : (it.map key).Nodup := by
  have hk := m.map.nodupKeys
  rw [h, Multiset.coe_nodupKeys, List.NodupKeys, List.keys, List.map_map] at hk
  exact hk

theorem iter_empty : (empty key).Iter [] := rfl

/-- Every map can be iterated over. -/
theorem exists_iter (m : Keyed key) : ∃ it, m.Iter it := by
  obtain ⟨l, hl⟩ : ∃ l : List (Sigma fun _ : κ => τ), (l : Multiset _) = m.map.entries :=
    Quotient.exists_rep m.map.entries
  have hid : ∀ e ∈ l, (⟨key e.2, e.2⟩ : Sigma fun _ : κ => τ) = e := by
    rintro ⟨k, t⟩ he
    have hm : m.map.lookup k = some t :=
      Finmap.lookup_eq_some_iff.mpr (by rw [← hl]; exact Multiset.mem_coe.mpr he)
    rw [m.keyed k t hm]
  have hmap : (l.map fun e => e.2).map (fun t => (⟨key t, t⟩ : Sigma fun _ : κ => τ)) = l := by
    rw [List.map_map]
    exact (List.map_congr_left hid).trans (List.map_id l)
  exact ⟨l.map fun e => e.2, by unfold Iter; rw [hmap, hl]⟩

theorem Iter.of_perm {m : Keyed key} {it it' : List τ} (h : m.Iter it) (hp : it.Perm it') :
    m.Iter it' := by
  unfold Iter at h ⊢
  rw [h, Multiset.coe_eq_coe]
  exact hp.map _

/-- Any value can be the first one. -/
theorem exists_iter_cons {m : Keyed key} {k : κ} {t : τ} (h : m.lookup k = some t) :
    ∃ it, m.Iter (t :: it) := by
  obtain ⟨it, hit⟩ := m.exists_iter
  obtain ⟨front, rest, rfl⟩ := List.append_of_mem (hit.mem_of_lookup h)
  exact ⟨front ++ rest, hit.of_perm List.perm_middle⟩

/-! ### Collecting -/

theorem lookup_foldl_insert (ts : List τ) (m : Keyed key) (k : κ) :
    (ts.foldl insert m).lookup k =
      ((ts.reverse.find? fun t => key t = k).orElse fun _ => m.lookup k) := by
  induction ts generalizing m with
  | nil => simp
  | cons t ts ih =>
    rw [List.foldl_cons, ih, List.reverse_cons, List.find?_append, lookup_insert]
    rcases List.find? (fun t => decide (key t = k)) ts.reverse with _ | u
    · by_cases hk : k = key t
      · simp [hk]
      · have : ¬ key t = k := fun h => hk h.symm
        simp [hk, this]
    · simp

/-- Upserting a list treats every key by the elements that have it, in their order. -/
theorem lookup_foldl_upsert (m : Keyed key) (f : τ → τ → τ) (hf : ∀ t u, key (f t u) = key u)
    (ts : List τ) (k : κ) :
    (ts.foldl (fun m t => m.upsert t (f t)) m).lookup k =
      (ts.filter fun t => key t = k).foldl (fun found t => some (found.elim t (f t)))
        (m.lookup k) := by
  induction ts generalizing m with
  | nil => rfl
  | cons t ts ih =>
    rw [List.foldl_cons, ih, lookup_upsert (hf t)]
    by_cases hk : key t = k
    · subst hk
      rw [if_pos rfl, List.filter_cons_of_pos (by simp), List.foldl_cons]
    · rw [if_neg (Ne.symm hk), List.filter_cons_of_neg (by simpa using hk)]

theorem foldl_elim_some (f : τ → τ → τ) (ts : List τ) (u : τ) :
    ts.foldl (fun found t => some (found.elim t (f t))) (some u) =
      some (ts.foldl (fun u t => f t u) u) := by
  induction ts generalizing u with
  | nil => rfl
  | cons t ts ih => exact ih (f t u)

/-- **What upserting a list leaves under a key**: the first of the elements that have it, changed by
the others. -/
theorem lookup_foldl_upsert_empty (key : τ → κ) (f : τ → τ → τ)
    (hf : ∀ t u, key (f t u) = key u) (ts : List τ) (k : κ) :
    (ts.foldl (fun m t => m.upsert t (f t)) (empty key)).lookup k =
      (ts.filter fun t => key t = k).head?.map fun t =>
        (ts.filter fun t => key t = k).tail.foldl (fun u t => f t u) t := by
  rw [lookup_foldl_upsert _ f hf, lookup_empty]
  rcases ts.filter fun t => key t = k with _ | ⟨t, rest⟩
  · rfl
  · exact foldl_elim_some f rest t

theorem lookup_ofList_mem {ts : List τ} {k : κ} {t : τ}
    (h : (ofList ts : Keyed key).lookup k = some t) : t ∈ ts := by
  unfold ofList at h
  rw [lookup_foldl_insert] at h
  simp only [lookup_empty, Option.orElse_eq_or, Option.or_none] at h
  exact List.mem_reverse.mp (List.mem_of_find?_eq_some h)

theorem mem_ids_ofList {ts : List τ} {k : κ} :
    k ∈ (ofList ts : Keyed key).ids ↔ ∃ t ∈ ts, key t = k := by
  rw [mem_ids]
  unfold ofList
  simp only [lookup_foldl_insert, lookup_empty, Option.orElse_eq_or, Option.or_none]
  rw [← Option.isSome_iff_exists, List.find?_isSome]
  simp

theorem lookup_ofList {ts : List τ} (hn : (ts.map key).Nodup) {t : τ} (ht : t ∈ ts) :
    (ofList ts : Keyed key).lookup (key t) = some t := by
  have hmem : key t ∈ (ofList ts : Keyed key).ids := mem_ids_ofList.mpr ⟨t, ht, rfl⟩
  obtain ⟨u, hu⟩ := mem_ids.mp hmem
  rw [hu, List.inj_on_of_nodup_map hn (lookup_ofList_mem hu) ht (key_of_lookup hu)]

/-- **Collecting undoes iterating**, whatever the order. -/
theorem iter_ofList {m : Keyed key} {it : List τ} (h : m.Iter it) : ofList it = m := by
  refine ext fun k => ?_
  rcases hk : m.lookup k with _ | t
  · rw [lookup_eq_none, mem_ids_ofList]
    rintro ⟨t, ht, rfl⟩
    rw [h.lookup ht] at hk
    simp at hk
  · have hkey := key_of_lookup hk
    subst hkey
    exact lookup_ofList h.nodup (h.mem_of_lookup hk)

/-- What a restricted map holds was in the map under the same key, and the key was asked for. -/
theorem lookup_restrict {m : Keyed key} {ks : List κ} {k : κ} {t : τ}
    (h : (m.restrict ks).lookup k = some t) : m.lookup k = some t ∧ k ∈ ks := by
  have hmem : t ∈ ks.filterMap m.lookup := lookup_ofList_mem h
  obtain ⟨k', hk', ht⟩ := List.mem_filterMap.mp hmem
  have h1 := key_of_lookup h
  have h2 := key_of_lookup ht
  rw [← h1, h2]
  exact ⟨ht, hk'⟩

/-- **The entries of a restricted map**, however often a key is asked for. -/
theorem lookup_restrict_iff {m : Keyed key} {ks : List κ} {k : κ} {t : τ} :
    (m.restrict ks).lookup k = some t ↔ m.lookup k = some t ∧ k ∈ ks := by
  constructor
  · exact lookup_restrict
  · rintro ⟨ht, hk⟩
    have hmem : k ∈ (m.restrict ks).ids :=
      mem_ids_ofList.mpr ⟨t, List.mem_filterMap.mpr ⟨k, hk, ht⟩, key_of_lookup ht⟩
    obtain ⟨u, hu⟩ := mem_ids.mp hmem
    have hsame : u = t := Option.some.inj ((lookup_restrict hu).1.symm.trans ht)
    rw [hu, hsame]

/-! ### Maps that need not know their keys -/

/-- The entry of a key is changed if there is one, and set otherwise. -/
def entryOr (m : Finmap fun _ : κ => τ) (k : κ) (f : τ → τ) (t : τ) : Finmap fun _ : κ => τ :=
  m.insert k ((m.lookup k).elim t f)

/-- The entries of the keys are collected under these keys. -/
def cloneByIds (m : Finmap fun _ : κ => τ) (ks : List κ) : Finmap fun _ : κ => τ :=
  (ks.filterMap fun k => (m.lookup k).map fun t => (k, t)).foldl (fun n e => n.insert e.1 e.2) ∅

/-- Setting or changing the entry under the key of `t` keeps the keys. -/
theorem upsert_map (m : Keyed key) (t : τ) {f : τ → τ} (hf : ∀ u, key (f u) = key u) :
    (m.upsert t f).map = entryOr m.map (key t) f t := by
  unfold entryOr
  rcases h : m.lookup (key t) with _ | old
  · have h' : m.map.lookup (key t) = none := h
    simp only [upsert, h, h', Option.elim_none]
    rfl
  · have h' : m.map.lookup (key t) = some old := h
    have hk : key (f old) = key t := by rw [hf, key_of_lookup h]
    simp only [upsert, h, h', Option.elim_some, insert, hk]

/-- Collecting entries under the keys that were asked for keeps the keys. -/
theorem restrict_map (m : Keyed key) (ks : List κ) : (m.restrict ks).map = cloneByIds m.map ks := by
  have hfold : ∀ (l : List κ) (n : Keyed key), ((l.filterMap m.lookup).foldl insert n).map =
      (l.filterMap fun k => (m.map.lookup k).map fun t => (k, t)).foldl
        (fun n e => n.insert e.1 e.2) n.map := by
    intro l
    induction l with
    | nil => intro n; rfl
    | cons k l ih =>
      intro n
      rcases h : m.lookup k with _ | t
      · have h' : m.map.lookup k = none := h
        simp only [List.filterMap_cons, h, h', Option.map_none]
        exact ih n
      · have h' : m.map.lookup k = some t := h
        simp only [List.filterMap_cons, h, h', Option.map_some, List.foldl_cons]
        rw [ih, ← key_of_lookup h]
        rfl
  exact hfold ks (empty key)

end Keyed

end Laqista.Lib
