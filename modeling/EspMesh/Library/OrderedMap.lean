import Mathlib.Data.List.Nodup
import Mathlib.Data.List.Induction

/-! # A map in order of insertion

A map as the list of its entries: `put` replaces the value of a key where it stands and appends
a new key, `drop` takes a key out. What the list has to do with the log of these changes is said
without the list.

* `LastPut k v log`: the last change of `k` put `v`.
* `Inserted k i log`: the `i`-th change put `k` in, and nothing has taken it out since.
* `Records m log`: the keys of `m` are distinct and in the order in which they were put in, and
  its entries are the last values put.
-/

namespace OrderedMap
set_option autoImplicit false

variable {κ β : Type}

inductive Change (κ β : Type)
  | put (k : κ) (v : β)
  | drop (k : κ)

def Change.key : Change κ β → κ
  | .put k _ => k
  | .drop k => k

def LastPut (k : κ) (v : β) (log : List (Change κ β)) : Prop :=
  ∃ before after, log = before ++ .put k v :: after ∧ ∀ c ∈ after, c.key ≠ k

def Present (k : κ) (log : List (Change κ β)) : Prop := ∃ v, LastPut k v log

def Inserted (k : κ) (i : ℕ) (log : List (Change κ β)) : Prop :=
  ∃ before v after, log = before ++ .put k v :: after ∧ before.length = i ∧
    ¬ Present k before ∧ .drop k ∉ after

def InsertedBefore (log : List (Change κ β)) (k k' : κ) : Prop :=
  ∃ i j, Inserted k i log ∧ Inserted k' j log ∧ i < j

variable {log : List (Change κ β)} {k : κ} {v : β}

theorem lastPut_snoc (c : Change κ β) :
    LastPut k v (log ++ [c]) ↔ c = .put k v ∨ c.key ≠ k ∧ LastPut k v log := by
  constructor
  · rintro ⟨before, after, heq, hafter⟩
    rcases List.eq_nil_or_concat after with rfl | ⟨after, d, rfl⟩
    · left
      exact List.singleton_inj.mp (List.append_inj_right' heq rfl)
    · right
      rw [List.concat_eq_append, ← List.cons_append, ← List.append_assoc] at heq
      obtain ⟨rfl, hcd⟩ := List.append_inj' heq rfl
      obtain rfl := List.singleton_inj.mp hcd
      rw [List.concat_eq_append] at hafter
      exact ⟨hafter c (by simp), before, after, rfl,
        fun x hx => hafter x (List.mem_append_left _ hx)⟩
  · rintro (rfl | ⟨hc, before, after, rfl, hafter⟩)
    · exact ⟨log, [], rfl, fun _ hx => absurd hx List.not_mem_nil⟩
    · refine ⟨before, after ++ [c], by rw [List.append_assoc, List.cons_append], fun x hx => ?_⟩
      rcases List.mem_append.mp hx with hx | hx
      · exact hafter x hx
      · rwa [List.mem_singleton.mp hx]

theorem not_lastPut_nil : ¬ LastPut k v ([] : List (Change κ β)) := by
  rintro ⟨before, after, heq, -⟩
  simp at heq

theorem Inserted.snoc {i : ℕ} (h : Inserted k i log) {c : Change κ β} (hc : c ≠ .drop k) :
    Inserted k i (log ++ [c]) := by
  obtain ⟨before, v, after, rfl, hi, hbefore, hafter⟩ := h
  refine ⟨before, v, after ++ [c], by rw [List.append_assoc, List.cons_append], hi, hbefore, ?_⟩
  intro hmem
  rcases List.mem_append.mp hmem with hmem | hmem
  · exact hafter hmem
  · exact hc (List.mem_singleton.mp hmem).symm

theorem InsertedBefore.snoc {k k' : κ} (h : InsertedBefore log k k') {c : Change κ β}
    (hk : c ≠ .drop k) (hk' : c ≠ .drop k') : InsertedBefore (log ++ [c]) k k' := by
  obtain ⟨i, j, hi, hj, hij⟩ := h
  exact ⟨i, j, hi.snoc hk, hj.snoc hk', hij⟩

theorem inserted_new (h : ¬ Present k log) (v : β) :
    Inserted k log.length (log ++ [.put k v]) :=
  ⟨log, v, [], rfl, rfl, h, List.not_mem_nil⟩

theorem Inserted.lt {i : ℕ} (h : Inserted k i log) : i < log.length := by
  obtain ⟨before, v, after, rfl, rfl, -⟩ := h
  simp

/-! ## The map -/

structure Records (m : List (κ × β)) (log : List (Change κ β)) : Prop where
  distinct : (m.map Prod.fst).Nodup
  lookup : ∀ k v, (k, v) ∈ m ↔ LastPut k v log
  inserted : ∀ k ∈ m.map Prod.fst, ∃ i, Inserted k i log
  order : (m.map Prod.fst).Pairwise (InsertedBefore log)

theorem records_nil : Records ([] : List (κ × β)) [] where
  distinct := List.nodup_nil
  lookup _ _ := iff_of_false List.not_mem_nil not_lastPut_nil
  inserted _ h := absurd h List.not_mem_nil
  order := List.Pairwise.nil

variable {m : List (κ × β)}

theorem Records.mem_iff (h : Records m log) (k : κ) : k ∈ m.map Prod.fst ↔ Present k log := by
  simp only [Present, ← h.lookup, List.mem_map]
  constructor
  · rintro ⟨e, he, rfl⟩
    exact ⟨e.2, he⟩
  · rintro ⟨v, hv⟩
    exact ⟨(k, v), hv, rfl⟩

section Changes
variable [DecidableEq κ]

def put (k : κ) (v : β) : List (κ × β) → List (κ × β)
  | [] => [(k, v)]
  | e :: m => if e.1 = k then (k, v) :: m else e :: put k v m

def drop (k : κ) : List (κ × β) → List (κ × β)
  | [] => []
  | e :: m => if e.1 = k then m else e :: drop k m

theorem put_new (h : k ∉ m.map Prod.fst) (v : β) : put k v m = m ++ [(k, v)] := by
  induction m with
  | nil => rfl
  | cons e m ih =>
    rw [List.map_cons, List.mem_cons, not_or] at h
    rw [put, if_neg (Ne.symm h.1), ih h.2, List.cons_append]

theorem put_keys (h : k ∈ m.map Prod.fst) (v : β) :
    (put k v m).map Prod.fst = m.map Prod.fst := by
  induction m with
  | nil => cases h
  | cons e m ih =>
    rw [put]
    split
    · next he => rw [List.map_cons, List.map_cons, he]
    · next he =>
      rw [List.map_cons, List.mem_cons] at h
      rw [List.map_cons, List.map_cons, ih (h.resolve_left fun hk => he hk.symm)]

theorem put_distinct (h : (m.map Prod.fst).Nodup) (k : κ) (v : β) :
    ((put k v m).map Prod.fst).Nodup := by
  by_cases hk : k ∈ m.map Prod.fst
  · rw [put_keys hk]
    exact h
  · rw [put_new hk, List.map_append, List.map_singleton, List.nodup_append]
    refine ⟨h, List.nodup_singleton k, ?_⟩
    rintro k' hk' l hl rfl
    have hl' : k' = k := List.mem_singleton.mp hl
    exact hk (hl' ▸ hk')

theorem put_length_le (k : κ) (v : β) (m : List (κ × β)) :
    (put k v m).length ≤ m.length + 1 := by
  induction m with
  | nil => exact Nat.le_refl _
  | cons e m ih =>
    rw [put]
    split
    · exact Nat.le_succ _
    · exact Nat.succ_le_succ ih

theorem mem_put (hm : (m.map Prod.fst).Nodup) (v : β) (e : κ × β) :
    e ∈ put k v m ↔ e = (k, v) ∨ e.1 ≠ k ∧ e ∈ m := by
  induction m with
  | nil => simp [put]
  | cons x m ih =>
    rw [List.map_cons, List.nodup_cons] at hm
    rw [put]
    split
    · next hx =>
      have hother : e ∈ m → e.1 ≠ k := fun he hek =>
        hm.1 (by rw [hx, ← hek]; exact List.mem_map_of_mem he)
      rw [List.mem_cons, List.mem_cons]
      refine or_congr_right ⟨fun he => ⟨hother he, .inr he⟩, fun h => h.2.resolve_left ?_⟩
      rintro rfl
      exact h.1 hx
    · next hx =>
      rw [List.mem_cons, ih hm.2, List.mem_cons]
      constructor
      · rintro (rfl | rfl | ⟨hne, he⟩)
        · exact .inr ⟨hx, .inl rfl⟩
        · exact .inl rfl
        · exact .inr ⟨hne, .inr he⟩
      · rintro (rfl | ⟨hne, rfl | he⟩)
        · exact .inr (.inl rfl)
        · exact .inl rfl
        · exact .inr (.inr ⟨hne, he⟩)

theorem drop_keys (k : κ) (m : List (κ × β)) :
    (drop k m).map Prod.fst = (m.map Prod.fst).erase k := by
  induction m with
  | nil => rfl
  | cons e m ih =>
    rw [drop, List.map_cons, List.erase_cons]
    by_cases he : e.1 = k
    · simp [he]
    · simp [he, ih]

theorem drop_length_le (k : κ) (m : List (κ × β)) : (drop k m).length ≤ m.length := by
  induction m with
  | nil => exact Nat.le_refl _
  | cons e m ih =>
    rw [drop]
    split
    · exact Nat.le_succ _
    · exact Nat.succ_le_succ ih

theorem mem_drop (hm : (m.map Prod.fst).Nodup) (e : κ × β) :
    e ∈ drop k m ↔ e.1 ≠ k ∧ e ∈ m := by
  induction m with
  | nil => simp [drop]
  | cons x m ih =>
    rw [List.map_cons, List.nodup_cons] at hm
    rw [drop]
    split
    · next hx =>
      have hother : e ∈ m → e.1 ≠ k := fun he hek =>
        hm.1 (by rw [hx, ← hek]; exact List.mem_map_of_mem he)
      refine ⟨fun he => ⟨hother he, List.mem_cons_of_mem _ he⟩, fun h => ?_⟩
      refine (List.mem_cons.mp h.2).resolve_left ?_
      rintro rfl
      exact h.1 hx
    · next hx =>
      rw [List.mem_cons, ih hm.2, List.mem_cons]
      constructor
      · rintro (rfl | ⟨hne, he⟩)
        · exact ⟨hx, .inl rfl⟩
        · exact ⟨hne, .inr he⟩
      · rintro ⟨hne, rfl | he⟩
        · exact .inl rfl
        · exact .inr ⟨hne, he⟩

/-! ## One change -/

theorem Records.put (h : Records m log) (k : κ) (v : β) :
    Records (put k v m) (log ++ [.put k v]) := by
  have hput : ∀ k', Change.put k v ≠ .drop k' := fun _ heq => by cases heq
  have hkept : ∀ k' ∈ m.map Prod.fst, ∃ i, Inserted k' i (log ++ [.put k v]) := fun k' hk' => by
    obtain ⟨i, hi⟩ := h.inserted k' hk'
    exact ⟨i, hi.snoc (hput k')⟩
  have horder : (m.map Prod.fst).Pairwise (InsertedBefore (log ++ [.put k v])) :=
    h.order.imp fun hb => hb.snoc (hput _) (hput _)
  have hlookup : ∀ k' v', (k', v') ∈ OrderedMap.put k v m ↔ LastPut k' v' (log ++ [.put k v]) := by
    intro k' v'
    rw [mem_put h.distinct, lastPut_snoc, h.lookup, Prod.mk.injEq, Change.put.injEq]
    exact or_congr (and_congr eq_comm eq_comm) (and_congr_left fun _ => ne_comm)
  by_cases hk : k ∈ m.map Prod.fst
  · have hkeys := put_keys hk v
    exact ⟨put_distinct h.distinct k v, hlookup, by rw [hkeys]; exact hkept,
      by rw [hkeys]; exact horder⟩
  · have hnew := inserted_new (fun hp => hk ((h.mem_iff k).mpr hp)) v
    have hkeys : (OrderedMap.put k v m).map Prod.fst = m.map Prod.fst ++ [k] := by
      rw [put_new hk, List.map_append, List.map_singleton]
    refine ⟨put_distinct h.distinct k v, hlookup, ?_, ?_⟩ <;> rw [hkeys]
    · intro k' hk'
      rcases List.mem_append.mp hk' with hk' | hk'
      · exact hkept k' hk'
      · rw [List.mem_singleton.mp hk']
        exact ⟨_, hnew⟩
    · rw [List.pairwise_append]
      refine ⟨horder, List.pairwise_singleton _ _, fun k' hk' l hl => ?_⟩
      rw [List.mem_singleton.mp hl]
      obtain ⟨i, hi⟩ := h.inserted k' hk'
      exact ⟨i, _, hi.snoc (hput k'), hnew, hi.lt⟩

theorem Records.drop (h : Records m log) (k : κ) : Records (drop k m) (log ++ [.drop k]) := by
  have hkeys := drop_keys k m
  have hother : ∀ k' ∈ (m.map Prod.fst).erase k, (Change.drop k : Change κ β) ≠ .drop k' := by
    intro k' hk' heq
    injection heq with heq
    exact (h.distinct.mem_erase_iff.mp hk').1 heq.symm
  refine ⟨?_, ?_, ?_, ?_⟩
  · rw [hkeys]
    exact h.distinct.erase k
  · intro k' v'
    rw [mem_drop h.distinct, lastPut_snoc, h.lookup]
    constructor
    · exact fun hl => .inr ⟨Ne.symm hl.1, hl.2⟩
    · rintro (hl | hl)
      · cases hl
      · exact ⟨Ne.symm hl.1, hl.2⟩
  · rw [hkeys]
    intro k' hk'
    obtain ⟨i, hi⟩ := h.inserted k' (List.mem_of_mem_erase hk')
    exact ⟨i, hi.snoc (hother k' hk')⟩
  · rw [hkeys]
    refine (h.order.sublist List.erase_sublist).imp_of_mem fun ha hb hab => ?_
    exact hab.snoc (hother _ ha) (hother _ hb)

end Changes

end OrderedMap
