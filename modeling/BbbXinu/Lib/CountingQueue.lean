import Mathlib.Data.List.Nodup
import Mathlib.Data.List.Perm.Basic
import Mathlib.Data.List.Basic

/-!
# Counting queues

A counter with the line of those who wait for it.  While the counter is
negative its value is the length of the line; otherwise nobody waits.  New
waiters join the end, and each unit that is signalled while somebody waits
releases the first of them.

Nothing here depends on a particular program.
-/

namespace BbbXinu

/-- A counter and its line, which agree. -/
structure CountingQueue (α : Type) where
  count : Int
  waiters : List α
  sized : waiters.length = (-count).toNat

namespace CountingQueue

variable {α : Type}

/-- What can happen to a counting queue. -/
inductive Op (α : Type) where
  /-- Ask for a unit, and wait if there is none. -/
  | wait (p : α)
  /-- Give some units. -/
  | signal (n : Nat)
  /-- Release everybody and start again with some units. -/
  | reset (n : Nat)
  /-- A waiter gives up. -/
  | leave (p : α)

section

variable (Q : CountingQueue α)

/-- A counter that nobody waits for. -/
def idle (n : Nat) : CountingQueue α := ⟨n, [], by simp⟩

def wait (p : α) : CountingQueue α where
  count := Q.count - 1
  waiters := if Q.count ≤ 0 then Q.waiters ++ [p] else Q.waiters
  sized := by
    have h := Q.sized
    split
    · rw [List.length_append, List.length_singleton]
      omega
    · omega

def signal (n : Nat) : CountingQueue α where
  count := Q.count + n
  waiters := Q.waiters.drop n
  sized := by
    have h := Q.sized
    rw [List.length_drop]
    omega

variable [DecidableEq α]

def leave (p : α) : CountingQueue α where
  count := if p ∈ Q.waiters then Q.count + 1 else Q.count
  waiters := Q.waiters.erase p
  sized := by
    have h := Q.sized
    split
    · rename_i hp
      have hpos := List.length_pos_of_mem hp
      rw [List.length_erase_of_mem hp]
      omega
    · rename_i hp
      rw [List.erase_of_not_mem hp]
      exact h

def apply : Op α → CountingQueue α
  | .wait p => Q.wait p
  | .signal n => Q.signal n
  | .reset n => idle n
  | .leave p => Q.leave p

/-- Those who join the line. -/
def joins : Op α → List α
  | .wait p => if Q.count ≤ 0 then [p] else []
  | .signal _ | .reset _ | .leave _ => []

/-- Those who are released, in order. -/
def releases : Op α → List α
  | .signal n => Q.waiters.take n
  | .reset _ => Q.waiters
  | .wait _ | .leave _ => []

/-- Those who give up. -/
def quits : Op α → List α
  | .leave p => if p ∈ Q.waiters then [p] else []
  | .wait _ | .signal _ | .reset _ => []

end

/-!
## Logs
-/

/-- Everybody who has joined the line, been released from it or given up. -/
structure Log (α : Type) where
  arrived : List α
  released : List α
  quit : List α
  deriving DecidableEq

/-- First come, first served: the released and the waiting are those who came,
in this order, less those who gave up. -/
structure Log.Fair (L : Log α) (waiters : List α) : Prop where
  order : (L.released ++ waiters).Sublist L.arrived
  all : L.arrived.Perm (L.released ++ waiters ++ L.quit)

theorem Log.fair_nil : (⟨[], [], []⟩ : Log α).Fair [] :=
  ⟨List.Sublist.refl _, List.Perm.refl _⟩

theorem Log.Fair.add {L : Log α} {waiters waiters' joined out gone : List α}
    (h : L.Fair waiters) (horder : (out ++ waiters').Sublist (waiters ++ joined))
    (hall : (waiters ++ joined).Perm (out ++ waiters' ++ gone)) :
    Log.Fair ⟨L.arrived ++ joined, L.released ++ out, L.quit ++ gone⟩ waiters' where
  order := by
    have hkeep : (L.released ++ (waiters ++ joined)).Sublist (L.arrived ++ joined) := by
      rw [← List.append_assoc]
      exact h.order.append (List.Sublist.refl joined)
    have hout : (L.released ++ (out ++ waiters')).Sublist
        (L.released ++ (waiters ++ joined)) := (List.Sublist.refl L.released).append horder
    rw [List.append_assoc]
    exact hout.trans hkeep
  all := by
    have h1 : (L.arrived ++ joined).Perm (L.released ++ waiters ++ L.quit ++ joined) :=
      h.all.append_right joined
    have h2 : (L.released ++ waiters ++ L.quit ++ joined).Perm
        (L.released ++ (waiters ++ joined) ++ L.quit) := by
      rw [← List.append_assoc, List.append_assoc (L.released ++ waiters),
        List.append_assoc (L.released ++ waiters)]
      exact List.Perm.append_left _ List.perm_append_comm
    have h3 : (L.released ++ (waiters ++ joined) ++ L.quit).Perm
        (L.released ++ (out ++ waiters' ++ gone) ++ L.quit) :=
      (hall.append_left L.released).append_right L.quit
    have h4 : (L.released ++ (out ++ waiters' ++ gone) ++ L.quit).Perm
        (L.released ++ out ++ waiters' ++ (L.quit ++ gone)) := by
      have hassoc : L.released ++ (out ++ waiters' ++ gone) ++ L.quit =
          L.released ++ out ++ waiters' ++ (gone ++ L.quit) := by
        simp only [List.append_assoc]
      rw [hassoc]
      exact List.Perm.append_left _ List.perm_append_comm
    exact ((h1.trans h2).trans h3).trans h4

/-!
## What one operation does
-/

variable {Q : CountingQueue α}

theorem count_neg_iff : Q.count < 0 ↔ Q.waiters ≠ [] := by
  have h := Q.sized
  constructor
  · intro hneg hnil
    rw [hnil, List.length_nil] at h
    omega
  · intro hne
    have hpos := List.length_pos_of_ne_nil hne
    omega

theorem length_of_neg (h : Q.count < 0) : (Q.waiters.length : Int) = -Q.count := by
  have hsized := Q.sized
  omega

theorem nil_of_nonneg (h : 0 ≤ Q.count) : Q.waiters = [] := by
  apply List.length_eq_zero_iff.mp
  have hsized := Q.sized
  omega

/-- As many are released as units are given while the counter is negative. -/
theorem releases_signal_length (Q : CountingQueue α) (n : Nat) :
    (Q.releases (.signal n)).length = min n (-Q.count).toNat := by
  show (Q.waiters.take n).length = _
  rw [List.length_take, Q.sized]

variable [DecidableEq α]

/-- Nobody is lost: those who waited or join now are released, quit or still
wait. -/
theorem apply_perm (Q : CountingQueue α) (op : Op α) :
    (Q.waiters ++ Q.joins op).Perm (Q.releases op ++ (Q.apply op).waiters ++ Q.quits op) := by
  cases op with
  | wait p =>
      show (Q.waiters ++ if Q.count ≤ 0 then [p] else []).Perm
        ([] ++ (if Q.count ≤ 0 then Q.waiters ++ [p] else Q.waiters) ++ [])
      split
      · simp
      · simp
  | signal n =>
      show (Q.waiters ++ []).Perm (Q.waiters.take n ++ Q.waiters.drop n ++ [])
      simp
  | reset n =>
      show (Q.waiters ++ []).Perm (Q.waiters ++ [] ++ [])
      simp
  | leave p =>
      show (Q.waiters ++ []).Perm ([] ++ Q.waiters.erase p ++ _)
      unfold quits
      dsimp only
      rw [List.append_nil, List.nil_append]
      split
      · rename_i hp
        exact (List.perm_cons_erase hp).trans (List.perm_append_singleton p _).symm
      · rename_i hp
        rw [List.erase_of_not_mem hp, List.append_nil]

/-- Nobody overtakes: the released and the remaining come in the old order. -/
theorem apply_sublist (Q : CountingQueue α) (op : Op α) :
    (Q.releases op ++ (Q.apply op).waiters).Sublist (Q.waiters ++ Q.joins op) := by
  cases op with
  | wait p =>
      show ([] ++ if Q.count ≤ 0 then Q.waiters ++ [p] else Q.waiters).Sublist
        (Q.waiters ++ if Q.count ≤ 0 then [p] else [])
      split
      · simp
      · simp
  | signal n =>
      show (Q.waiters.take n ++ Q.waiters.drop n).Sublist (Q.waiters ++ [])
      simp
  | reset n =>
      show (Q.waiters ++ []).Sublist (Q.waiters ++ [])
      exact List.Sublist.refl _
  | leave p =>
      show ([] ++ Q.waiters.erase p).Sublist (Q.waiters ++ [])
      rw [List.nil_append, List.append_nil]
      exact List.erase_sublist

/-!
## What an observer of the line sees
-/

/-- New names in the line are those who joined. -/
theorem filter_joins {op : Op α} (hfresh : ∀ p ∈ Q.joins op, p ∉ Q.waiters) :
    ((Q.apply op).waiters.filter fun p => decide (p ∉ Q.waiters)) = Q.joins op := by
  have hnone : ∀ l : List α, (∀ p ∈ l, p ∈ Q.waiters) →
      (l.filter fun p => decide (p ∉ Q.waiters)) = [] := by
    intro l hl
    apply List.filter_eq_nil_iff.mpr
    intro p hp
    simpa using hl p hp
  cases op with
  | wait p =>
      change ∀ q ∈ (if Q.count ≤ 0 then [p] else []), q ∉ Q.waiters at hfresh
      show ((if Q.count ≤ 0 then Q.waiters ++ [p] else Q.waiters).filter _) =
        if Q.count ≤ 0 then [p] else []
      split
      · rename_i hcount
        rw [if_pos hcount] at hfresh
        have hp : p ∉ Q.waiters := hfresh p (List.mem_singleton_self p)
        rw [List.filter_append, hnone _ fun _ h => h]
        simp [hp]
      · exact hnone _ fun _ h => h
  | signal n => exact hnone _ fun _ h => List.mem_of_mem_drop h
  | reset n => rfl
  | leave p => exact hnone _ fun _ h => List.mem_of_mem_erase h

/-- Names that are gone are those who were released or gave up. -/
theorem filter_left {op : Op α} (hnd : Q.waiters.Nodup) :
    (Q.waiters.filter fun p => decide (p ∉ (Q.apply op).waiters)) =
      Q.releases op ++ Q.quits op := by
  cases op with
  | wait p =>
      apply List.filter_eq_nil_iff.mpr
      intro q hq
      have hstay : q ∈ (Q.apply (.wait p)).waiters := by
        show q ∈ if Q.count ≤ 0 then Q.waiters ++ [p] else Q.waiters
        split
        · exact List.mem_append_left _ hq
        · exact hq
      simpa using hstay
  | signal n =>
      show (Q.waiters.filter fun p => decide (p ∉ Q.waiters.drop n)) = Q.waiters.take n ++ []
      rw [List.append_nil]
      have hsplit := List.take_append_drop n Q.waiters
      have hdisj : ∀ p ∈ Q.waiters.take n, p ∉ Q.waiters.drop n := by
        intro p hp hp'
        rw [← hsplit] at hnd
        exact List.disjoint_of_nodup_append hnd hp hp'
      have htake : ((Q.waiters.take n).filter fun p => decide (p ∉ Q.waiters.drop n)) =
          Q.waiters.take n := by
        apply List.filter_eq_self.mpr
        intro p hp
        simpa using hdisj p hp
      have hdrop : ((Q.waiters.drop n).filter fun p => decide (p ∉ Q.waiters.drop n)) =
          [] := by
        apply List.filter_eq_nil_iff.mpr
        intro p hp
        simpa using hp
      have hall : (Q.waiters.filter fun p => decide (p ∉ Q.waiters.drop n)) =
          ((Q.waiters.take n ++ Q.waiters.drop n).filter fun p =>
            decide (p ∉ Q.waiters.drop n)) := by rw [hsplit]
      rw [hall, List.filter_append, htake, hdrop, List.append_nil]
  | reset n =>
      show (Q.waiters.filter fun p => decide (p ∉ [])) = Q.waiters ++ []
      rw [List.append_nil]
      apply List.filter_eq_self.mpr
      intro p _
      simp
  | leave p =>
      show (Q.waiters.filter fun q => decide (q ∉ Q.waiters.erase p)) =
        [] ++ if p ∈ Q.waiters then [p] else []
      rw [List.nil_append]
      split
      · rename_i hp
        have hiff : ∀ q ∈ Q.waiters, decide (q ∉ Q.waiters.erase p) = decide (q = p) := by
          intro q hq
          apply decide_eq_decide.mpr
          rw [hnd.mem_erase_iff]
          constructor
          · intro h
            by_contra hne
            exact h ⟨hne, hq⟩
          · intro h hc
            exact hc.1 h
        rw [List.filter_congr hiff, List.filter_eq]
        rw [List.count_eq_one_of_mem hnd hp]
        rfl
      · rename_i hp
        rw [List.erase_of_not_mem hp]
        apply List.filter_eq_nil_iff.mpr
        intro q hq
        simpa using hq

end CountingQueue

end BbbXinu

/-!
# Mailboxes of one word

A mailbox holds at most one word.  Its log has the words that were put in and
the words that were taken out.  The log is faithful if the words taken out are
those put in, in the same order, but for the one that is still inside.

Nothing here depends on a particular program.
-/

namespace BbbXinu
namespace Mailbox

variable {α : Type}

/-- What was put into a mailbox and what was taken out. -/
structure Mail (α : Type) where
  sent : List α
  taken : List α
  deriving DecidableEq

namespace Mail

def empty : Mail α := { sent := [], taken := [] }

def post (m : Mail α) (a : α) : Mail α := { m with sent := m.sent ++ [a] }

def take (m : Mail α) (a : α) : Mail α := { m with taken := m.taken ++ [a] }

/-- Nothing is lost, repeated, overwritten or out of order. -/
def Faithful (m : Mail α) (word : Option α) : Prop := m.sent = m.taken ++ word.toList

section

variable {m : Mail α} {word : Option α} {a : α}

theorem faithful_empty : (empty : Mail α).Faithful none := rfl

theorem Faithful.post (h : m.Faithful none) : (m.post a).Faithful (some a) := by
  unfold Faithful at h ⊢
  rw [Option.toList_none, List.append_nil] at h
  show m.sent ++ [a] = m.taken ++ [a]
  rw [h]

theorem Faithful.take (h : m.Faithful (some a)) : (m.take a).Faithful none := by
  unfold Faithful at h ⊢
  rw [Option.toList_none, List.append_nil]
  exact h

end

end Mail

end Mailbox
end BbbXinu
