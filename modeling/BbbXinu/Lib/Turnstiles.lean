import BbbXinu.Lib.CountingQueue

/-!
# Turnstiles

A counting queue together with those who were released from its line and have not gone
on yet.  Between a release and the moment when the released one goes on, the unit it
was given is in nobody's hands: it is no longer in the counter, and not yet used.

Nothing here depends on a particular program.
-/

namespace BbbXinu

/-- A counting queue, and who was released from its line and still stands there. -/
structure Turnstile (α : Type) where
  queue : CountingQueue α
  granted : List α

namespace Turnstile

variable {α : Type}

/-- A turnstile with some units that nobody waits for. -/
def idle (n : Nat) : Turnstile α := { queue := CountingQueue.idle n, granted := [] }

/-- Somebody asks for a unit. -/
def enter (T : Turnstile α) (p : α) : Turnstile α := { T with queue := T.queue.wait p }

/-- Whoever asks for a unit now gets it at once. -/
def Open (T : Turnstile α) : Prop := 0 < T.queue.count

instance (T : Turnstile α) : Decidable T.Open := inferInstanceAs (Decidable (_ < _))

/-- Some units are given, and as many are released as wait for one. -/
def signal (T : Turnstile α) (n : Nat) : Turnstile α :=
  { queue := T.queue.signal n, granted := T.granted ++ T.queue.waiters.take n }

/-- Everybody is released, and the counter starts again with some units. -/
def reset (T : Turnstile α) (n : Nat) : Turnstile α :=
  { queue := CountingQueue.idle n, granted := T.granted ++ T.queue.waiters }

/-- One of the released goes on. -/
def resume [DecidableEq α] (T : Turnstile α) (p : α) : Turnstile α :=
  { T with granted := T.granted.erase p }

/-- Those who have asked for a unit and have not gone on. -/
def inside (T : Turnstile α) : List α := T.queue.waiters ++ T.granted

/-- The units that were given and not used. -/
def units (T : Turnstile α) : Int := T.queue.count + T.inside.length

/-- The units that were given and not used, when of those who stand in the line or were released
only some may use what they are given, and the units of the others are void. -/
def unitsOf (T : Turnstile α) (P : α → Bool) : Int := T.queue.count + (T.inside.countP P : Nat)

section

variable {T : Turnstile α} {P P' : α → Bool} {p : α} {n : Nat}

theorem units_eq : T.units = T.unitsOf fun _ => true := by
  unfold units unitsOf
  rw [List.countP_true]

theorem unitsOf_congr (h : ∀ q ∈ T.inside, P q = P' q) : T.unitsOf P = T.unitsOf P' := by
  unfold unitsOf
  rw [List.countP_congr fun q hq => by rw [h q hq]]

theorem units_idle : (idle n : Turnstile α).units = n := by
  change (n : Int) + (0 : Nat) = n
  omega

/-!
## Entering
-/

theorem waiters_open (h : T.Open) : (T.queue.wait p).waiters = T.queue.waiters :=
  if_neg (Int.not_le.mpr h)

theorem waiters_closed (h : ¬T.Open) : (T.queue.wait p).waiters = T.queue.waiters ++ [p] :=
  if_pos (Int.not_lt.mp h)

theorem inside_enter_open (h : T.Open) : (T.enter p).inside = T.inside := by
  change (T.queue.wait p).waiters ++ T.granted = _
  rw [waiters_open h]
  rfl

/-- Whoever waits joins those inside. -/
theorem inside_enter (h : ¬T.Open) : (T.enter p).inside.Perm (p :: T.inside) := by
  change ((T.queue.wait p).waiters ++ T.granted).Perm (p :: (T.queue.waiters ++ T.granted))
  rw [waiters_closed h, List.append_assoc]
  exact List.perm_middle

theorem length_enter_closed (h : ¬T.Open) :
    (T.enter p).inside.length = T.inside.length + 1 :=
  (inside_enter h).length_eq

/-- Whoever passes at once uses a unit. -/
theorem unitsOf_enter_open (h : T.Open) : (T.enter p).unitsOf P = T.unitsOf P - 1 := by
  unfold unitsOf
  rw [inside_enter_open h]
  change T.queue.count - 1 + _ = _
  omega

theorem units_enter_open (h : T.Open) : (T.enter p).units = T.units - 1 := by
  rw [units_eq, units_eq, unitsOf_enter_open h]

/-- Whoever waits uses nothing. -/
theorem unitsOf_enter_closed (h : ¬T.Open) (hp : P p = true) :
    (T.enter p).unitsOf P = T.unitsOf P := by
  unfold unitsOf
  rw [(inside_enter h).countP_eq, List.countP_cons_of_pos hp]
  change T.queue.count - 1 + _ = _
  omega

theorem units_enter_closed (h : ¬T.Open) : (T.enter p).units = T.units := by
  rw [units_eq, units_eq, unitsOf_enter_closed h rfl]

/-!
## Signals
-/

/-- Nobody comes or goes with a signal. -/
theorem inside_signal : (T.signal n).inside.Perm T.inside := by
  change (T.queue.waiters.drop n ++ (T.granted ++ T.queue.waiters.take n)).Perm
    (T.queue.waiters ++ T.granted)
  have hsplit : (T.queue.waiters.take n ++ T.queue.waiters.drop n).Perm
      (T.queue.waiters.drop n ++ T.queue.waiters.take n) := List.perm_append_comm
  rw [List.take_append_drop] at hsplit
  refine List.Perm.trans (List.Perm.append_left _ List.perm_append_comm) ?_
  rw [← List.append_assoc]
  exact List.Perm.append_right _ hsplit.symm

theorem length_signal : (T.signal n).inside.length = T.inside.length :=
  inside_signal.length_eq

theorem unitsOf_signal : (T.signal n).unitsOf P = T.unitsOf P + n := by
  unfold unitsOf
  rw [inside_signal.countP_eq]
  change T.queue.count + n + _ = _
  omega

theorem units_signal : (T.signal n).units = T.units + n := by
  rw [units_eq, units_eq, unitsOf_signal]

/-- A reset while nobody waits only changes the counter. -/
theorem inside_reset_open (h : T.Open) : (T.reset n).inside = T.inside := by
  have hnil : T.queue.waiters = [] := T.queue.nil_of_nonneg (Int.le_of_lt h)
  unfold inside
  change [] ++ (T.granted ++ T.queue.waiters) = _
  rw [hnil, List.append_nil, List.nil_append]

theorem units_reset_open (h : T.Open) : (T.reset n).units = T.units - T.queue.count + n := by
  unfold units
  rw [inside_reset_open h]
  change (n : Int) + _ = _
  omega

theorem inside_reset : (T.reset n).inside.Perm T.inside := by
  change ([] ++ (T.granted ++ T.queue.waiters)).Perm (T.queue.waiters ++ T.granted)
  rw [List.nil_append]
  exact List.perm_append_comm

/-- When nobody who is inside counts, the units are those of the counter. -/
theorem unitsOf_stale (h : ∀ q ∈ T.inside, P q = false) : T.unitsOf P = T.queue.count := by
  have hzero : T.inside.countP P = 0 := by
    rw [List.countP_eq_zero]
    intro q hq
    rw [h q hq]
    exact Bool.false_ne_true
  unfold unitsOf
  rw [hzero]
  omega

theorem unitsOf_reset (h : ∀ q ∈ T.inside, P q = false) : (T.reset n).unitsOf P = n :=
  unitsOf_stale fun q hq => h q (inside_reset.mem_iff.mp hq)

/-!
## Going on
-/

theorem inside_resume [DecidableEq α] (h : p ∈ T.granted) :
    T.inside.Perm (p :: (T.resume p).inside) := by
  change (T.queue.waiters ++ T.granted).Perm (p :: (T.queue.waiters ++ T.granted.erase p))
  exact ((List.perm_cons_erase h).append_left _).trans List.perm_middle

theorem length_resume [DecidableEq α] (h : p ∈ T.granted) :
    (T.resume p).inside.length + 1 = T.inside.length :=
  (inside_resume h).length_eq.symm

theorem unitsOf_resume [DecidableEq α] (h : p ∈ T.granted) (hp : P p = true) :
    (T.resume p).unitsOf P = T.unitsOf P - 1 := by
  unfold unitsOf
  rw [(inside_resume h).countP_eq, List.countP_cons_of_pos hp]
  change T.queue.count + _ = T.queue.count + _ - 1
  omega

theorem units_resume [DecidableEq α] (h : p ∈ T.granted) :
    (T.resume p).units = T.units - 1 := by
  rw [units_eq, units_eq, unitsOf_resume h rfl]

theorem unitsOf_resume_other [DecidableEq α] (h : p ∈ T.granted) (hp : P p = false) :
    (T.resume p).unitsOf P = T.unitsOf P := by
  unfold unitsOf
  rw [(inside_resume h).countP_eq, List.countP_cons_of_neg (by rw [hp]; exact Bool.false_ne_true)]
  rfl

/-!
## How many units there are
-/

/-- There are never more units in the counter than were given and not used. -/
theorem count_le_units : T.queue.count ≤ T.units := by
  unfold units
  omega

theorem unitsOf_pos_of_open (h : T.Open) : 0 < T.unitsOf P := by
  unfold unitsOf Open at *
  omega

/-- Whoever waits counts, so there is a unit for each of those released who count. -/
theorem unitsOf_eq_granted (hwaiters : ∀ q ∈ T.queue.waiters, P q = true) :
    T.unitsOf P = T.queue.count.toNat + (T.granted.countP P : Nat) := by
  have hsized := T.queue.sized
  unfold unitsOf inside
  rw [List.countP_append, List.countP_eq_length.mpr hwaiters]
  omega

theorem unitsOf_pos_of_granted (hwaiters : ∀ q ∈ T.queue.waiters, P q = true)
    (h : p ∈ T.granted) (hp : P p = true) : 0 < T.unitsOf P := by
  have hpos : 0 < T.granted.countP P := List.countP_pos_iff.mpr ⟨p, h, hp⟩
  rw [unitsOf_eq_granted hwaiters]
  omega

theorem units_nonneg : 0 ≤ T.units := by
  rw [units_eq, unitsOf_eq_granted fun _ _ => rfl]
  omega

end

end Turnstile

end BbbXinu
