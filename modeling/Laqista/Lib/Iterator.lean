import Laqista.Lib.Fallible
import Mathlib.Data.List.Forall2
import Mathlib.Tactic.Common

/-! # Loops over iterators

`Loop next body` is a loop over an iterator: `next` gives an item, or nothing, which ends the loop,
and each of the two can fail, which ends it as well.

An iterator is `Framed` if it takes one record after the other from its state and reads each on its
own. A loop over it then stops at the first record that gives nothing, whatever follows
(`overRecords_ok_iff`), so that it collects what all records say exactly if nothing is said behind
such a record (`collects_iff`). -/

namespace Laqista.Lib

variable {σ τ α β ρ ε : Type}

inductive Loop (next : σ → Except ε (Option α × σ)) (body : τ → α → Except ε τ) :
    σ → τ → Except ε (σ × τ) → Prop where
  | done {s s' : σ} {t : τ} (h : next s = .ok (none, s')) : Loop next body s t (.ok (s', t))
  | nextFails {s : σ} {t : τ} {e : ε} (h : next s = .error e) : Loop next body s t (.error e)
  | bodyFails {s s' : σ} {t : τ} {a : α} {e : ε} (h : next s = .ok (some a, s'))
      (hbody : body t a = .error e) : Loop next body s t (.error e)
  | turn {s s' : σ} {t t' : τ} {a : α} {x : Except ε (σ × τ)} (h : next s = .ok (some a, s'))
      (hbody : body t a = .ok t') (hrest : Loop next body s' t' x) : Loop next body s t x

section

variable {next : σ → Except ε (Option α × σ)} {body : τ → α → Except ε τ} {s s' : σ} {t : τ}
  {x : Except ε (σ × τ)}

theorem loop_of_error {e : ε} (h : next s = .error e) : Loop next body s t x ↔ x = .error e := by
  constructor
  · intro hloop
    cases hloop with
    | done hn => simp [h] at hn
    | nextFails hn => exact congrArg Except.error (Except.error.inj (hn.symm.trans h))
    | bodyFails hn => simp [h] at hn
    | turn hn => simp [h] at hn
  · rintro rfl
    exact .nextFails h

theorem loop_of_none (h : next s = .ok (none, s')) : Loop next body s t x ↔ x = .ok (s', t) := by
  constructor
  · intro hloop
    cases hloop with
    | done hn =>
      obtain ⟨-, rfl⟩ := Prod.ext_iff.mp (Except.ok.inj (hn.symm.trans h))
      rfl
    | nextFails hn => simp [h] at hn
    | bodyFails hn => simp [h] at hn
    | turn hn => simp [h] at hn
  · rintro rfl
    exact .done h

theorem loop_of_some {a : α} (h : next s = .ok (some a, s')) :
    Loop next body s t x ↔ (∃ e, body t a = .error e ∧ x = .error e) ∨
      ∃ t', body t a = .ok t' ∧ Loop next body s' t' x := by
  constructor
  · intro hloop
    cases hloop with
    | done hn => simp [h] at hn
    | nextFails hn => simp [h] at hn
    | bodyFails hn hbody =>
      obtain ⟨ha, rfl⟩ := Prod.ext_iff.mp (Except.ok.inj (hn.symm.trans h))
      obtain rfl := Option.some.inj ha
      exact .inl ⟨_, hbody, rfl⟩
    | turn hn hbody hrest =>
      obtain ⟨ha, rfl⟩ := Prod.ext_iff.mp (Except.ok.inj (hn.symm.trans h))
      obtain rfl := Option.some.inj ha
      exact .inr ⟨_, hbody, hrest⟩
  · rintro (⟨e, hbody, rfl⟩ | ⟨t', hbody, hrest⟩)
    · exact .bodyFails h hbody
    · exact .turn h hbody hrest

end

/-- The body that keeps the items. -/
def collect (as : List α) (a : α) : Except ε (List α) := .ok (as ++ [a])

theorem foldlM_collect (as bs : List α) :
    bs.foldlM (collect (ε := ε)) as = .ok (as ++ bs) := by
  induction bs generalizing as with
  | nil => rw [List.append_nil]; rfl
  | cons b bs ih =>
    rw [List.foldlM_cons]
    show bs.foldlM collect (as ++ [b]) = _
    rw [ih, List.append_assoc]
    rfl

/-! ### Records -/

/-- The iterator takes a record from its state and reads it on its own. -/
structure Framed (next : σ → Except ε (Option α × σ)) (read : ρ → Except ε (Option α))
    (state : List ρ → σ) : Prop where
  atEnd : next (state []) = .ok (none, state [])
  takes : ∀ r rs, next (state (r :: rs)) = (read r).map fun a => (a, state rs)

/-- The loop over the records: a record that gives nothing ends it, with the records behind it
left. -/
def overRecords (read : ρ → Except ε (Option α)) (body : τ → α → Except ε τ) :
    List ρ → τ → Except ε (List ρ × τ)
  | [], t => .ok ([], t)
  | r :: rs, t =>
    match read r with
    | .error e => .error e
    | .ok none => .ok (rs, t)
    | .ok (some a) =>
      match body t a with
      | .error e => .error e
      | .ok t' => overRecords read body rs t'

variable {next : σ → Except ε (Option α × σ)} {read : ρ → Except ε (Option α)}
  {state : List ρ → σ} {body : τ → α → Except ε τ}

/-- **A loop over an iterator of records is the loop over the records.** -/
theorem Framed.loop_iff (h : Framed next read state) {rs : List ρ} {t : τ}
    {x : Except ε (σ × τ)} : Loop next body (state rs) t x ↔
      x = (overRecords read body rs t).map fun p => (state p.1, p.2) := by
  induction rs generalizing t with
  | nil => exact loop_of_none h.atEnd
  | cons r rs ih =>
    have htakes := h.takes r rs
    unfold overRecords
    rcases hread : read r with e | _ | a
    · rw [hread] at htakes
      exact loop_of_error htakes
    · rw [hread] at htakes
      exact loop_of_none htakes
    · rw [hread] at htakes
      rw [loop_of_some htakes]
      rcases hbody : body t a with e | t'
      · simp [hbody, Except.map]
      · simp [hbody, ih]

/-- A loop that ends without failing. -/
theorem Framed.loop_ok_iff (h : Framed next read state) {rs : List ρ} {t t' : τ} {s : σ} :
    Loop next body (state rs) t (.ok (s, t')) ↔
      ∃ left, overRecords read body rs t = .ok (left, t') ∧ s = state left := by
  rw [h.loop_iff]
  rcases overRecords read body rs t with e | ⟨left, t''⟩
  · simp [Except.map]
  · simp only [Except.map, Except.ok.injEq, Prod.mk.injEq]
    constructor
    · rintro ⟨rfl, rfl⟩
      exact ⟨left, ⟨rfl, rfl⟩, rfl⟩
    · rintro ⟨_, ⟨rfl, rfl⟩, rfl⟩
      exact ⟨rfl, rfl⟩

/-- The records in front of one that gives nothing are read to items. -/
def ReadTo (read : ρ → Except ε (Option α)) (rs : List ρ) (as : List α) : Prop :=
  List.Forall₂ (fun r a => read r = .ok (some a)) rs as

/-- The loop goes over the records in front of the rest. -/
theorem ReadTo.overRecords_append {goods : List ρ} {as : List α} (h : ReadTo read goods as)
    {t t' : τ} (hfold : as.foldlM body t = .ok t') (rest : List ρ) :
    overRecords read body (goods ++ rest) t = overRecords read body rest t' := by
  induction h generalizing t with
  | nil =>
    obtain rfl := Except.ok.inj hfold
    rfl
  | @cons r a goods as hread _ ih =>
    rw [List.foldlM_cons] at hfold
    obtain ⟨t₁, hbody, hrest⟩ := bind_eq_ok.mp hfold
    rw [List.cons_append, overRecords, hread]
    dsimp only
    rw [hbody]
    exact ih hrest

/-- **The loop takes the records up to the first one that gives nothing.** -/
theorem overRecords_ok_iff {rs left : List ρ} {t t' : τ} :
    overRecords read body rs t = .ok (left, t') ↔
      ∃ goods as, ReadTo read goods as ∧ as.foldlM body t = .ok t' ∧
        ((rs = goods ∧ left = []) ∨ ∃ bad, rs = goods ++ bad :: left ∧ read bad = .ok none) := by
  constructor
  · intro h
    induction rs generalizing t with
    | nil =>
      obtain ⟨rfl, rfl⟩ := Prod.ext_iff.mp (Except.ok.inj h)
      exact ⟨[], [], .nil, rfl, .inl ⟨rfl, rfl⟩⟩
    | cons r rs ih =>
      unfold overRecords at h
      rcases hread : read r with e | _ | a
      · simp [hread] at h
      · rw [hread] at h
        obtain ⟨rfl, rfl⟩ := Prod.ext_iff.mp (Except.ok.inj h)
        exact ⟨[], [], .nil, rfl, .inr ⟨r, rfl, hread⟩⟩
      · rcases hbody : body t a with e | t₁
        · simp [hread, hbody] at h
        · simp only [hread, hbody] at h
          obtain ⟨goods, as, hgoods, hfold, hend⟩ := ih h
          refine ⟨r :: goods, a :: as, .cons hread hgoods, ?_, ?_⟩
          · rw [List.foldlM_cons, hbody]
            exact hfold
          · rcases hend with ⟨rfl, rfl⟩ | ⟨bad, rfl, hbad⟩
            · exact .inl ⟨rfl, rfl⟩
            · exact .inr ⟨bad, rfl, hbad⟩
  · rintro ⟨goods, as, hgoods, hfold, ⟨rfl, rfl⟩ | ⟨bad, rfl, hbad⟩⟩
    · have hloop := hgoods.overRecords_append hfold []
      rw [List.append_nil] at hloop
      exact hloop
    · rw [hgoods.overRecords_append hfold, overRecords, hbad]

theorem exists_readTo {rs : List ρ} : (∃ as, ReadTo read rs as) ↔
    ∀ r ∈ rs, ∃ a, read r = .ok (some a) := by
  constructor
  · rintro ⟨as, has⟩
    induction has with
    | nil => simp
    | cons hread _ ih =>
      intro r hr
      rcases List.mem_cons.mp hr with rfl | hr
      · exact ⟨_, hread⟩
      · exact ih r hr
  · intro h
    induction rs with
    | nil => exact ⟨[], .nil⟩
    | cons r rs ih =>
      obtain ⟨a, ha⟩ := h r (by simp)
      obtain ⟨as, has⟩ := ih fun r hr => h r (List.mem_cons_of_mem _ hr)
      exact ⟨a :: as, .cons ha has⟩

/-- All items have a property exactly if each record has one with it. -/
theorem ReadTo.forall_mem_iff {P : α → Prop} {rs : List ρ} {as : List α}
    (h : ReadTo read rs as) :
    (∀ a ∈ as, P a) ↔ ∀ r ∈ rs, ∃ a, read r = .ok (some a) ∧ P a := by
  induction h with
  | nil => simp
  | @cons r a rs as hread _ ih =>
    rw [List.forall_mem_cons, List.forall_mem_cons, ih, hread]
    simp

theorem ReadTo.filterMap {spec : ρ → Option β} {proj : α → β}
    (hspec : ∀ r o, read r = .ok o → o.map proj = spec r) {rs : List ρ} {as : List α}
    (h : ReadTo read rs as) : rs.filterMap spec = as.map proj := by
  induction h with
  | nil => rfl
  | @cons r a rs as hread _ ih =>
    have hr : spec r = some (proj a) := (hspec r _ hread).symm
    rw [List.filterMap_cons_some hr, List.map_cons, ih]

/-- **A loop collects what all the records say exactly if nothing is said behind the first one that
gives nothing**, and that one does not fail. -/
theorem collects_iff {spec : ρ → Option β} {proj : α → β}
    (hspec : ∀ r o, read r = .ok o → o.map proj = spec r) {rs : List ρ} :
    (∃ left as, overRecords read collect rs [] = .ok (left, as) ∧
        as.map proj = rs.filterMap spec) ↔
      ∃ goods bads, rs = goods ++ bads ∧ (∀ r ∈ goods, ∃ a, read r = .ok (some a)) ∧
        (∀ r ∈ bads, spec r = none) ∧ ∀ r ∈ bads.head?, read r = .ok none := by
  constructor
  · rintro ⟨left, as, hloop, has⟩
    obtain ⟨goods, as', hgoods, hfold, hend⟩ := overRecords_ok_iff.mp hloop
    rw [foldlM_collect] at hfold
    obtain rfl := Except.ok.inj hfold
    rcases hend with ⟨rfl, rfl⟩ | ⟨bad, rfl, hbad⟩
    · exact ⟨rs, [], by simp, exists_readTo.mp ⟨_, hgoods⟩, by simp, by simp⟩
    · refine ⟨goods, bad :: left, rfl, exists_readTo.mp ⟨_, hgoods⟩, ?_, ?_⟩
      · rw [List.filterMap_append, hgoods.filterMap hspec, List.nil_append] at has
        exact List.filterMap_eq_nil_iff.mp (List.self_eq_append_right.mp has)
      · intro r hr
        obtain rfl := Option.some.inj hr
        exact hbad
  · rintro ⟨goods, bads, rfl, hgoods, hnone, hhead⟩
    obtain ⟨as, has⟩ := exists_readTo.mpr hgoods
    have hspecs : (goods ++ bads).filterMap spec = as.map proj := by
      rw [List.filterMap_append, has.filterMap hspec, List.filterMap_eq_nil_iff.mpr hnone,
        List.append_nil]
    rw [hspecs]
    rcases bads with _ | ⟨bad, left⟩
    · exact ⟨[], as, overRecords_ok_iff.mpr
        ⟨goods, as, has, foldlM_collect [] as, .inl ⟨List.append_nil goods, rfl⟩⟩, rfl⟩
    · exact ⟨left, as, overRecords_ok_iff.mpr
        ⟨goods, as, has, foldlM_collect [] as, .inr ⟨bad, rfl, hhead bad rfl⟩⟩, rfl⟩

/-- The same of a loop over the iterator, where it is known which records are read to an item, and
which end the loop. -/
theorem Framed.collects_iff (h : Framed next read state) {spec : ρ → Option β} {proj : α → β}
    {Good Stops : ρ → Prop} (hsome : ∀ r a, read r = .ok (some a) → spec r = some (proj a))
    (hgood : ∀ r, (∃ a, read r = .ok (some a)) ↔ Good r)
    (hstops : ∀ r, read r = .ok none ↔ spec r = none ∧ Stops r) {rs : List ρ} :
    (∃ s as, Loop next collect (state rs) [] (.ok (s, as)) ∧ as.map proj = rs.filterMap spec) ↔
      ∃ goods bads, rs = goods ++ bads ∧ (∀ r ∈ goods, Good r) ∧
        (∀ r ∈ bads, spec r = none) ∧ ∀ r ∈ bads.head?, Stops r := by
  have hspec : ∀ r o, read r = .ok o → o.map proj = spec r := by
    intro r o hr
    rcases o with _ | a
    · exact ((hstops r).mp hr).1.symm
    · exact (hsome r a hr).symm
  have hloop : (∃ s as, Loop next collect (state rs) [] (.ok (s, as)) ∧
      as.map proj = rs.filterMap spec) ↔ ∃ left as,
        overRecords read collect rs [] = .ok (left, as) ∧ as.map proj = rs.filterMap spec := by
    constructor
    · rintro ⟨s, as, hloop, has⟩
      obtain ⟨left, hrecords, -⟩ := h.loop_ok_iff.mp hloop
      exact ⟨left, as, hrecords, has⟩
    · rintro ⟨left, as, hrecords, has⟩
      exact ⟨_, as, h.loop_ok_iff.mpr ⟨left, hrecords, rfl⟩, has⟩
  rw [hloop, Lib.collects_iff hspec]
  simp only [hgood]
  constructor
  · rintro ⟨goods, bads, rfl, hgoods, hbads, hhead⟩
    exact ⟨goods, bads, rfl, hgoods, hbads, fun r hr => ((hstops r).mp (hhead r hr)).2⟩
  · rintro ⟨goods, bads, rfl, hgoods, hbads, hhead⟩
    exact ⟨goods, bads, rfl, hgoods, hbads, fun r hr =>
      (hstops r).mpr ⟨hbads r (List.mem_of_mem_head? hr), hhead r hr⟩⟩

end Laqista.Lib
