import BbbXinu.Lib.Table

/-!
# Stores with a queue and a cache

A store has data for each key.  Requests to fetch and to store data wait in a queue, from
where they go into a cache, and what is stored goes to the backing store then.  An entry of
the queue without data is a request to fetch; an entry of the cache without data is not to be
used.

Nothing here depends on a particular program.
-/

namespace BbbXinu
namespace WriteBack

variable {κ α : Type}

/-- A key, and data for it. -/
structure Entry (κ α : Type) where
  key : κ
  data : Option α

/-- The entry has data for a key. -/
def Entry.Holds (e : Entry κ α) (k : κ) : Prop := e.data.isSome = true ∧ e.key = k

/-- No data for a key is on its way or cached. -/
def Missing (queue cache : List (Entry κ α)) (k : κ) : Prop :=
  (∀ e ∈ queue, ¬e.Holds k) ∧ ∀ e ∈ cache, ¬e.Holds k

/-- Queue, cache and backing store hold the content of the store: data in the queue comes
last, data in the cache first, and there is not both for one key. -/
structure Coherent (content backing : κ → α) (queue cache : List (Entry κ α)) : Prop where
  ordered : queue.Pairwise fun d e => ¬d.Holds e.key
  first : cache.Pairwise fun d e => ¬e.Holds d.key
  apart : ∀ d ∈ queue, ∀ e ∈ cache, ¬e.Holds d.key
  queued : ∀ e ∈ queue, ∀ x ∈ e.data, content e.key = x
  cached : ∀ e ∈ cache, ∀ x ∈ e.data, content e.key = x
  settled : ∀ k, (∀ e ∈ queue, ¬e.Holds k) → content k = backing k

section

variable {content backing : κ → α} {queue queue' cache cache' : List (Entry κ α)}
  {e : Entry κ α} {k : κ} {x y : α}

theorem holds_some : (Entry.mk k (some x)).Holds k := ⟨rfl, rfl⟩

theorem not_holds_none {k' : κ} : ¬(Entry.mk k (none : Option α)).Holds k' := fun h => by
  cases h.1

theorem Missing.evict (h : Missing queue cache k) (hsub : cache'.Sublist cache) :
    Missing queue cache' k :=
  ⟨h.1, fun e he => h.2 e (hsub.subset he)⟩

namespace Coherent

/-- An empty store is what its backing store is. -/
theorem nil : Coherent backing backing ([] : List (Entry κ α)) [] where
  ordered := List.Pairwise.nil
  first := List.Pairwise.nil
  apart := fun _ hd => by cases hd
  queued := fun _ he => by cases he
  cached := fun _ he => by cases he
  settled := fun _ _ => rfl

/-- Entries of the cache may be dropped. -/
theorem evict (h : Coherent content backing queue cache) (hsub : cache'.Sublist cache) :
    Coherent content backing queue cache' where
  ordered := h.ordered
  first := h.first.sublist hsub
  apart := fun d hd e he => h.apart d hd e (hsub.subset he)
  queued := h.queued
  cached := fun e he => h.cached e (hsub.subset he)
  settled := h.settled

theorem ordered_append (h : queue.Pairwise fun d e => ¬d.Holds e.key)
    (hnew : ∀ d ∈ queue, ¬d.Holds e.key) : (queue ++ [e]).Pairwise fun d e => ¬d.Holds e.key := by
  refine List.pairwise_append.mpr ⟨h, List.pairwise_singleton _ _, fun d hd c hc => ?_⟩
  rw [List.mem_singleton.mp hc]
  exact hnew d hd

/-- A request to fetch is put into the queue. -/
theorem fetch (h : Coherent content backing queue cache) (hk : Missing queue cache k) :
    Coherent content backing (queue ++ [⟨k, none⟩]) cache where
  ordered := ordered_append h.ordered hk.1
  first := h.first
  apart := fun d hd e he => by
    rcases List.mem_append.mp hd with hd | hd
    · exact h.apart d hd e he
    · rw [List.mem_singleton.mp hd]
      exact hk.2 e he
  queued := fun e he x hx => by
    rcases List.mem_append.mp he with he | he
    · exact h.queued e he x hx
    · rw [List.mem_singleton.mp he] at hx
      cases hx
  cached := h.cached
  settled := fun i hi => h.settled i fun e he => hi e (List.mem_append_left _ he)

variable [DecidableEq κ]

/-- The content for a key changes, and the entries do not have data for it. -/
theorem content_upd {entries : List (Entry κ α)} (h : ∀ e ∈ entries, ∀ y ∈ e.data, content e.key = y)
    (hk : ∀ e ∈ entries, ¬e.Holds k) : ∀ e ∈ entries, ∀ y ∈ e.data, upd content k x e.key = y := by
  intro e he y hy
  have hne : e.key ≠ k := fun heq => hk e he ⟨by rw [hy]; rfl, heq⟩
  rw [upd_of_ne hne]
  exact h e he y hy

/-- A request to store data is put into the queue. -/
theorem store (h : Coherent content backing queue cache) (hk : Missing queue cache k) :
    Coherent (upd content k x) backing (queue ++ [⟨k, some x⟩]) cache where
  ordered := ordered_append h.ordered hk.1
  first := h.first
  apart := fun d hd e he => by
    rcases List.mem_append.mp hd with hd | hd
    · exact h.apart d hd e he
    · rw [List.mem_singleton.mp hd]
      exact hk.2 e he
  queued := fun e he y hy => by
    rcases List.mem_append.mp he with he | he
    · exact content_upd h.queued hk.1 e he y hy
    · rw [List.mem_singleton.mp he] at hy ⊢
      exact upd_self.trans (Option.mem_some.mp hy)
  cached := content_upd h.cached hk.2
  settled := fun i hi => by
    have hne : i ≠ k := by
      rintro rfl
      exact hi _ (List.mem_append_right _ List.mem_cons_self) holds_some
    rw [upd_of_ne hne]
    exact h.settled i fun e he => hi e (List.mem_append_left _ he)

/-- The data of a request in the queue is replaced. -/
theorem restore {before after : List (Entry κ α)}
    (h : Coherent content backing (before ++ ⟨k, some x⟩ :: after) cache) :
    Coherent (upd content k y) backing (before ++ ⟨k, some y⟩ :: after) cache := by
  have hord := List.pairwise_append.mp h.ordered
  have hrest := List.pairwise_cons.mp hord.2.1
  have hbefore : ∀ e ∈ before, ¬e.Holds k := fun e he => hord.2.2 e he _ List.mem_cons_self
  have hafter : ∀ e ∈ after, ¬e.Holds k := fun e he hh => hrest.1 e he ⟨rfl, hh.2.symm⟩
  have hcache : ∀ e ∈ cache, ¬e.Holds k :=
    fun e he => h.apart ⟨k, some x⟩ (by simp) e he
  exact
    { ordered := by
        refine List.pairwise_append.mpr ⟨hord.1, List.pairwise_cons.mpr ⟨fun e he hh => ?_, hrest.2⟩,
          fun d hd e he => ?_⟩
        · exact hrest.1 e he ⟨rfl, hh.2⟩
        · rcases List.mem_cons.mp he with rfl | he
          · exact hbefore d hd
          · exact hord.2.2 d hd e (List.mem_cons_of_mem _ he)
      first := h.first
      apart := fun d hd e he => by
        rcases List.mem_append.mp hd with hd | hd
        · exact h.apart d (List.mem_append_left _ hd) e he
        · rcases List.mem_cons.mp hd with rfl | hd
          · exact hcache e he
          · exact h.apart d (by simp [hd]) e he
      queued := fun e he z hz => by
        rcases List.mem_append.mp he with he | he
        · exact content_upd (fun e he => h.queued e (List.mem_append_left _ he)) hbefore e he z hz
        · rcases List.mem_cons.mp he with rfl | he
          · exact upd_self.trans (Option.mem_some.mp hz)
          · exact content_upd (fun e he => h.queued e (by simp [he])) hafter e he z hz
      cached := content_upd h.cached hcache
      settled := fun i hi => by
        have hne : i ≠ k := by
          rintro rfl
          exact hi ⟨i, some y⟩ (by simp) holds_some
        rw [upd_of_ne hne]
        refine h.settled i fun e he => ?_
        rcases List.mem_append.mp he with he | he
        · exact hi e (List.mem_append_left _ he)
        · rcases List.mem_cons.mp he with rfl | he
          · exact fun hh => hne hh.2.symm
          · exact hi e (by simp [he]) }

/-- The first request goes into the cache, and its data to the backing store. -/
theorem take (h : Coherent content backing (⟨k, some x⟩ :: queue) cache) :
    Coherent content (upd backing k x) queue (⟨k, some x⟩ :: cache) := by
  have hord := List.pairwise_cons.mp h.ordered
  have hk : content k = x := h.queued ⟨k, some x⟩ List.mem_cons_self x rfl
  exact
    { ordered := hord.2
      first := List.pairwise_cons.mpr
        ⟨fun e he => h.apart ⟨k, some x⟩ List.mem_cons_self e he, h.first⟩
      apart := fun d hd e he => by
        rcases List.mem_cons.mp he with rfl | he
        · exact hord.1 d hd
        · exact h.apart d (List.mem_cons_of_mem _ hd) e he
      queued := fun e he => h.queued e (List.mem_cons_of_mem _ he)
      cached := fun e he y hy => by
        rcases List.mem_cons.mp he with rfl | he
        · exact hk.trans (Option.mem_some.mp hy)
        · exact h.cached e he y hy
      settled := fun i hi => by
        by_cases heq : i = k
        · rw [heq, upd_self, hk]
        · rw [upd_of_ne heq]
          refine h.settled i fun e he => ?_
          rcases List.mem_cons.mp he with rfl | he
          · exact fun hh => heq hh.2.symm
          · exact hi e he }

omit [DecidableEq κ] in
/-- A request to fetch is answered, and an entry without data goes into the cache. -/
theorem answer (h : Coherent content backing (⟨k, none⟩ :: queue) cache) :
    Coherent content backing queue (⟨k, none⟩ :: cache) where
  ordered := (List.pairwise_cons.mp h.ordered).2
  first := List.pairwise_cons.mpr
    ⟨fun e he => h.apart ⟨k, none⟩ List.mem_cons_self e he, h.first⟩
  apart := fun d hd e he => by
    rcases List.mem_cons.mp he with rfl | he
    · exact not_holds_none
    · exact h.apart d (List.mem_cons_of_mem _ hd) e he
  queued := fun e he => h.queued e (List.mem_cons_of_mem _ he)
  cached := fun e he y hy => by
    rcases List.mem_cons.mp he with rfl | he
    · cases hy
    · exact h.cached e he y hy
  settled := fun i hi => by
    refine h.settled i fun e he => ?_
    rcases List.mem_cons.mp he with rfl | he
    · exact not_holds_none
    · exact hi e he

omit [DecidableEq κ] in
/-!
## Searches
-/

/-- The first entry of the cache with a key decides whether there is data for it. -/
theorem not_cached (h : Coherent content backing queue cache)
    (hnone : ∀ e, cache.find? (fun e => decide (e.key = k)) = some e → e.data = none) :
    ∀ e ∈ cache, ¬e.Holds k := by
  intro e he hh
  obtain ⟨before, after, rfl⟩ := List.append_of_mem he
  have hord := List.pairwise_append.mp h.first
  -- an earlier entry with the key would have data behind it
  have hbefore : before.find? (fun e => decide (e.key = k)) = none := by
    refine List.find?_eq_none.mpr fun d hd hdk => ?_
    refine hord.2.2 d hd e List.mem_cons_self ⟨hh.1, ?_⟩
    rw [of_decide_eq_true hdk]
    exact hh.2
  have hhead : (e :: after).find? (fun e => decide (e.key = k)) = some e :=
    List.find?_cons_of_pos (decide_eq_true hh.2)
  have hdata := hnone e (by
    rw [List.find?_append, hbefore, hhead]
    rfl)
  rw [Entry.Holds, hdata] at hh
  cases hh.1

/-- The last entry of the queue with a key decides whether there is data for it. -/
theorem not_queued (h : Coherent content backing queue cache)
    (hnone : ∀ e, queue.reverse.find? (fun e => decide (e.key = k)) = some e → e.data = none) :
    ∀ e ∈ queue, ¬e.Holds k := by
  intro e he hh
  obtain ⟨before, after, rfl⟩ := List.append_of_mem he
  have hord := List.pairwise_cons.mp (List.pairwise_append.mp h.ordered).2.1
  have hafter : after.reverse.find? (fun e => decide (e.key = k)) = none := by
    refine List.find?_eq_none.mpr fun d hd hdk => ?_
    refine hord.1 d (List.mem_reverse.mp hd) ⟨hh.1, ?_⟩
    rw [of_decide_eq_true hdk]
    exact hh.2
  have hhead : (e :: before.reverse).find? (fun e => decide (e.key = k)) = some e :=
    List.find?_cons_of_pos (decide_eq_true hh.2)
  have hdata := hnone e (by
    rw [List.reverse_append, List.reverse_cons, List.append_assoc, List.find?_append, hafter,
      List.singleton_append, hhead]
    rfl)
  rw [Entry.Holds, hdata] at hh
  cases hh.1

end Coherent

end

end WriteBack
end BbbXinu
