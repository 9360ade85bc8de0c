import BbbXinu.Tty.Read

/-!
# What a read of a line stores

An arrow key gives the characters that were read back, but counts one too many of them
back, and a command of the history becomes the buffer.  Until the first command is recalled
every character is stored at the end of the caller's bytes or before it.
-/

namespace BbbXinu
namespace Tty

/-!
## Strings that are not written to
-/

section Strlen

variable {mem mem' : Memory}

theorem strlenLoop_congr {fuel str : Nat}
    (h : ∀ i ≤ strlenLoop mem fuel str, mem' (str + i) = mem (str + i)) :
    strlenLoop mem' fuel str = strlenLoop mem fuel str := by
  induction fuel generalizing str with
  | zero => rfl
  | succ fuel ih =>
      have hfirst := h 0 (Nat.zero_le _)
      rw [Nat.add_zero] at hfirst
      unfold strlenLoop at h ⊢
      rw [hfirst]
      by_cases hnull : mem str = 0
      · rw [if_pos hnull, if_pos hnull]
      · rw [if_neg hnull] at h
        rw [if_neg hnull, if_neg hnull]
        refine congrArg (· + 1) (ih fun i hi => ?_)
        rw [Nat.add_right_comm]
        exact h (i + 1) (Nat.succ_le_succ hi)

theorem strlen_congr {str : Nat} (h : ∀ i ≤ strlen mem str, mem' (str + i) = mem (str + i)) :
    strlen mem' str = strlen mem str := strlenLoop_congr h

end Strlen

/-- A call in cooked mode with room for a character.  The caller's bytes are not those of a
string of the history. -/
structure CookedRead where
  terminal : Terminal
  cooked : terminal.tyimode = .cooked
  mem : Memory
  buff : Nat
  count : Nat
  count_pos : 1 ≤ count
  apart : ∀ addr, (terminal.node addr).str ≠ NULL →
    ∀ i ≤ strlen mem (terminal.node addr).str,
      (terminal.node addr).str + i < buff ∨ buff + count ≤ (terminal.node addr).str + i

namespace CookedRead

variable (c : CookedRead)

def call (fuel : Nat) : Option (Int × Reader) :=
  ttyread c.terminal c.mem c.buff c.count fuel

/-- The address is that of a character of a history string, or of the null byte behind it. -/
def InHistory (addr : Nat) : Prop :=
  ∃ n, (c.terminal.node n).str ≠ NULL ∧
    ∃ i ≤ strlen c.mem (c.terminal.node n).str, addr = (c.terminal.node n).str + i

/-- Every character is stored in the caller's bytes and none in the history, and the result
is the end of the file or the number of characters stored. -/
structure Good (r : Int × Reader) : Prop where
  inside : ∀ addr ∈ r.2.stores, c.buff ≤ addr ∧ addr < c.buff + c.count
  apart : ∀ addr ∈ r.2.stores, ¬c.InHistory addr
  result : r.1 = EOF ∨ r.1 = r.2.stores.length ∧ 1 ≤ r.1 ∧ r.1 ≤ c.count

/-- The call returns, and what it has done is right. -/
def Behaves : Prop := ∃ fuel r, c.call fuel = some r ∧ c.Good r

/-!
## The keys
-/

/-- What {lit}`ttychkspecial` keeps when the given number of characters has come. -/
def special : Nat → Special
  | 0 => c.terminal.special
  | n + 1 => (ttychkspecial (special n) (c.terminal.input n).ch (c.terminal.input n).shellpid
      (c.terminal.input n).prstate).2

/-- The result of {lit}`ttychkspecial` for a character. -/
def key (n : Nat) : UInt8 :=
  (ttychkspecial (c.special n) (c.terminal.input n).ch (c.terminal.input n).shellpid
    (c.terminal.input n).prstate).1

def LineEnd (n : Nat) : Prop :=
  (c.terminal.input n).ch = TY_NEWLINE ∨ (c.terminal.input n).ch = TY_RETURN

/-- There is room for the character, and the line does not end before it. -/
def Reads (n : Nat) : Prop := n < c.count ∧ ∀ m < n, ¬c.LineEnd m

/-- The entry of the history from which the next command is recalled. -/
def entry : Strlist :=
  c.terminal.node (if c.terminal.tmpcmd = NULL then c.terminal.cmdhistory else c.terminal.tmpcmd)

/-- There is a command to recall. -/
def HasHistory : Prop :=
  (if c.terminal.tmpcmd = NULL then c.terminal.cmdhistory else c.terminal.tmpcmd) ≠ NULL ∧
    c.entry.str ≠ NULL

/-- No arrow key has an effect. -/
def NoRecall : Prop := c.HasHistory → ∀ n, 1 ≤ n → c.Reads n → c.key n = 0

/-- A command is recalled with the last character for which there is room, and it is as
long as what was read. -/
def RecallsSame : Prop :=
  c.HasHistory ∧ c.entry.prev ≠ NULL ∧ strlen c.mem c.entry.str = c.count ∧
    ∃ n, 1 ≤ n ∧ n + 1 = c.count ∧ c.Reads n ∧ c.key n = 1 ∧ ∀ m, 1 ≤ m → m < n → c.key m ≠ 1

theorem key_eq_one {n : Nat} (h : c.key n = 1) : (c.terminal.input n).ch = TY_UP := by
  unfold key ttychkspecial at h
  split at h
  · cases h
  · split at h
    · cases h
    · split at h
      · assumption
      · split at h
        · split at h
          · cases h
          · cases h
        · cases h

/-!
## One turn
-/

/-- The state when a number of characters has come after the first one. -/
def state (n : Nat) : Reader :=
  (Reader.turn c.terminal.node c.terminal.input)^[n] (c.terminal.first c.mem c.buff)

theorem state_succ (n : Nat) :
    c.state (n + 1) = (c.state n).turn c.terminal.node c.terminal.input :=
  Function.iterate_succ_apply' _ n _

/-- What holds whatever has been recalled. -/
structure Counted (n : Nat) (t : Reader) : Prop where
  taken : t.taken = n + 1
  ch : t.ch = (c.terminal.input n).ch
  special : t.special = c.special (n + 1)
  stores : t.stores.length = n + 1
  nread : -1 ≤ t.nread

end CookedRead

namespace Reader

variable {node : Nat → Strlist} {input : Nat → Arrival} {t : Reader}

/-- The state after a character that is not an arrow key. -/
def stored (input : Nat → Arrival) (t : Reader) : Reader :=
  { t.store input with special := (t.check input).2 }

theorem turn_eq : t.turn node input =
    if (t.check input).1 ≠ 0 ∧ t.tmpcmd ≠ NULL ∧ (node t.tmpcmd).str ≠ NULL then
      (t.stored input).arrowKey node (t.check input).1
    else t.stored input := rfl

/-- The down arrow is never seen, so only the up arrow recalls a command. -/
theorem arrowKey_eq (chkarrow : UInt8) : t.arrowKey node chkarrow =
    if chkarrow = 1 ∧ (node t.tmpcmd).prev ≠ NULL then
      { t.erase with
        buff := (node t.tmpcmd).str
        nread := strlen t.mem (node t.tmpcmd).str
        tmpcmd := (node t.tmpcmd).prev }
    else t.erase := by
  have hdown : ¬((chkarrow.toNat : Int) = -1 ∧ (node t.erase.tmpcmd).next ≠ NULL) := by omega
  unfold arrowKey
  dsimp only
  rw [if_neg hdown]
  rfl

end Reader

namespace CookedRead

variable (c : CookedRead)

section Turns

variable {c} {n : Nat} {t : Reader}

theorem check_eq (htaken : t.taken = n) (hspecial : t.special = c.special n) :
    t.check c.terminal.input = (c.key n, c.special (n + 1)) := by
  unfold Reader.check
  rw [htaken, hspecial]
  rfl

theorem Counted.check (h : Counted c n t) :
    t.check c.terminal.input = (c.key (n + 1), c.special (n + 2)) := check_eq h.taken h.special

theorem first_counted : Counted c 0 (c.terminal.first c.mem c.buff) where
  taken := rfl
  ch := rfl
  special := rfl
  stores := rfl
  nread := by
    change (-1 : Int) ≤ 0 + 1
    decide

theorem Counted.stored (h : Counted c n t) :
    Counted c (n + 1) (t.stored c.terminal.input) where
  taken := congrArg (· + 1) h.taken
  ch := congrArg (fun k => (c.terminal.input k).ch) h.taken
  special := congrArg Prod.snd h.check
  stores := congrArg (· + 1) h.stores
  nread := (Int.le_add_one h.nread)

theorem Counted.erase (h : Counted c n t) : Counted c n t.erase := { h with nread := le_refl _ }

theorem Counted.arrowKey (h : Counted c n t) (chkarrow : UInt8) :
    Counted c n (t.arrowKey c.terminal.node chkarrow) := by
  rw [Reader.arrowKey_eq]
  split
  · exact { h with nread := by dsimp only; omega }
  · exact h.erase

theorem Counted.turn (h : Counted c n t) :
    Counted c (n + 1) (t.turn c.terminal.node c.terminal.input) := by
  rw [Reader.turn_eq]
  split
  · exact h.stored.arrowKey _
  · exact h.stored

theorem state_counted (n : Nat) : Counted c n (c.state n) := by
  induction n with
  | zero => exact first_counted
  | succ n ih =>
      rw [state_succ]
      exact ih.turn

/-- A place that has been written to stays one. -/
theorem stores_turn {node : Nat → Strlist} {input : Nat → Arrival} :
    (t.turn node input).stores = t.buff :: t.stores := by
  rw [Reader.turn_eq]
  split
  · rw [Reader.arrowKey_eq]
    split
    · rfl
    · rfl
  · rfl

theorem mem_stores {addr : Nat} (haddr : addr ∈ (c.state n).stores) (k : Nat) :
    addr ∈ (c.state (n + k)).stores := by
  induction k with
  | zero => exact haddr
  | succ k ih =>
      rw [← Nat.add_assoc, state_succ, stores_turn]
      exact List.mem_cons_of_mem _ ih

end Turns

/-!
## Before a command is recalled
-/

/-- An arrow key that has an effect. -/
def Arrow (n : Nat) : Prop := c.HasHistory ∧ c.key n ≠ 0

/-- An up arrow that recalls a command. -/
def Up (n : Nat) : Prop := c.HasHistory ∧ c.key n = 1 ∧ c.entry.prev ≠ NULL

/-- What holds until a command is recalled. -/
structure Typed (n : Nat) (t : Reader) : Prop where
  counted : Counted c n t
  tmpcmd : t.tmpcmd = if c.terminal.tmpcmd = NULL then c.terminal.cmdhistory else c.terminal.tmpcmd
  buff_le : t.buff ≤ c.buff + (n + 1)
  le_buff : c.buff + t.nread.toNat ≤ t.buff
  stores : ∀ addr ∈ t.stores, c.buff ≤ addr ∧ addr ≤ c.buff + n
  mem : ∀ addr, addr < c.buff ∨ c.buff + n < addr → t.mem addr = c.mem addr
  nread_le : t.nread ≤ n + 1
  nread_eq : t.nread = n + 1 ↔ ∀ m, 1 ≤ m → m ≤ n → ¬c.Arrow m

section Typed

variable {c} {n : Nat} {t : Reader}

theorem first_typed : Typed c 0 (c.terminal.first c.mem c.buff) where
  counted := first_counted
  tmpcmd := rfl
  buff_le := le_refl _
  le_buff := le_refl _
  stores := by
    intro addr haddr
    obtain rfl : addr = c.buff := List.mem_singleton.mp haddr
    exact ⟨le_refl _, le_refl _⟩
  mem := by
    intro addr haddr
    have hne : addr ≠ c.buff := by omega
    exact upd_of_ne hne
  nread_le := le_refl _
  nread_eq := iff_of_true rfl fun m hm hle => by omega

theorem Typed.stores_stored (h : Typed c n t) :
    ∀ addr ∈ (t.stored c.terminal.input).stores, c.buff ≤ addr ∧ addr ≤ c.buff + (n + 1) := by
  intro addr haddr
  have hbuff := h.buff_le
  have hle := h.le_buff
  rcases List.mem_cons.mp haddr with rfl | hold
  · omega
  · have hin := h.stores addr hold
    omega

theorem Typed.mem_stored (h : Typed c n t) (addr : Nat)
    (haddr : addr < c.buff ∨ c.buff + (n + 1) < addr) :
    (t.stored c.terminal.input).mem addr = c.mem addr := by
  have hbuff := h.buff_le
  have hle := h.le_buff
  have hne : addr ≠ t.buff := by omega
  exact (upd_of_ne hne).trans (h.mem addr (by omega))

/-- The turn for a character that recalls nothing. -/
theorem Typed.stored (h : Typed c n t) (hno : ¬c.Arrow (n + 1)) :
    Typed c (n + 1) (t.stored c.terminal.input) where
  counted := h.counted.stored
  tmpcmd := h.tmpcmd
  buff_le := Nat.succ_le_succ h.buff_le
  le_buff := by
    have hbuff := h.le_buff
    have hnread := h.counted.nread
    change c.buff + (t.nread + 1).toNat ≤ t.buff + 1
    omega
  stores := h.stores_stored
  mem := h.mem_stored
  nread_le := by
    have hle := h.nread_le
    change t.nread + 1 ≤ _
    omega
  nread_eq := by
    have hiff := h.nread_eq
    change t.nread + 1 = ((n + 1 : Nat) : Int) + 1 ↔ _
    have hshift : t.nread + 1 = ((n + 1 : Nat) : Int) + 1 ↔ t.nread = (n : Int) + 1 := by omega
    rw [hshift, hiff]
    constructor
    · intro hall m hm hle
      rcases Nat.le_succ_iff.mp hle with hlt | rfl
      · exact hall m hm hlt
      · exact hno
    · intro hall m hm hle
      exact hall m hm (Nat.le_succ_of_le hle)

/-- The turn for an arrow key with no command to go with it. -/
theorem Typed.erased (h : Typed c n t) (harrow : c.Arrow (n + 1)) :
    Typed c (n + 1) (t.stored c.terminal.input).erase where
  counted := h.counted.stored.erase
  tmpcmd := h.tmpcmd
  buff_le := by
    have hbuff := h.buff_le
    change t.buff + 1 - (t.nread + 1).toNat ≤ _
    omega
  le_buff := by
    have hle := h.le_buff
    have hnread := h.counted.nread
    change c.buff + (-1 : Int).toNat ≤ t.buff + 1 - (t.nread + 1).toNat
    omega
  stores := h.stores_stored
  mem := h.mem_stored
  nread_le := by
    change (-1 : Int) ≤ _
    omega
  nread_eq := by
    refine iff_of_false ?_ fun hall => hall (n + 1) (Nat.succ_pos n) (le_refl _) harrow
    change ¬(-1 : Int) = _
    omega

/-- The test for an arrow key with a history to go with it. -/
theorem Typed.recalls_iff (h : Typed c n t) :
    ((t.check c.terminal.input).1 ≠ 0 ∧ t.tmpcmd ≠ NULL ∧ (c.terminal.node t.tmpcmd).str ≠ NULL) ↔
      c.Arrow (n + 1) := by
  rw [h.counted.check, h.tmpcmd]
  constructor
  · rintro ⟨hkey, hhistory⟩
    exact ⟨hhistory, hkey⟩
  · rintro ⟨hhistory, hkey⟩
    exact ⟨hkey, hhistory⟩

theorem Typed.node_eq (h : Typed c n t) : c.terminal.node t.tmpcmd = c.entry :=
  congrArg c.terminal.node h.tmpcmd

/-- As long as no command is recalled, the turns go on as they began. -/
theorem Typed.turn (h : Typed c n t) (hup : ¬c.Up (n + 1)) :
    Typed c (n + 1) (t.turn c.terminal.node c.terminal.input) := by
  rw [Reader.turn_eq]
  by_cases harrow : c.Arrow (n + 1)
  · have hno : ¬((t.check c.terminal.input).1 = 1 ∧
        (c.terminal.node (t.stored c.terminal.input).tmpcmd).prev ≠ NULL) := by
      rintro ⟨hkey, hprev⟩
      rw [h.counted.check] at hkey
      have hentry : c.terminal.node (t.stored c.terminal.input).tmpcmd = c.entry := h.node_eq
      exact hup ⟨harrow.1, hkey, hentry ▸ hprev⟩
    rw [if_pos (h.recalls_iff.mpr harrow), Reader.arrowKey_eq, if_neg hno]
    exact h.erased harrow
  · rw [if_neg fun hrecalls => harrow (h.recalls_iff.mp hrecalls)]
    exact h.stored harrow

/-- A command that is recalled is read in its place. -/
theorem Typed.turn_up (h : Typed c n t) (hup : c.Up (n + 1)) (hroom : n + 1 < c.count) :
    (t.turn c.terminal.node c.terminal.input).buff = c.entry.str ∧
      (t.turn c.terminal.node c.terminal.input).nread = strlen c.mem c.entry.str := by
  rcases hup with ⟨hhistory, hkey, hprev⟩
  have harrow : c.Arrow (n + 1) := ⟨hhistory, by rw [hkey]; decide⟩
  have hentry : c.terminal.node (t.stored c.terminal.input).tmpcmd = c.entry := h.node_eq
  have hsame : strlen (t.stored c.terminal.input).mem c.entry.str = strlen c.mem c.entry.str := by
    apply strlen_congr
    intro i hi
    have hapart := c.apart (if c.terminal.tmpcmd = NULL then c.terminal.cmdhistory
      else c.terminal.tmpcmd) hhistory.2 i hi
    exact h.mem_stored _ (hapart.imp_right fun hbeyond =>
      lt_of_lt_of_le (Nat.add_lt_add_left hroom c.buff) hbeyond)
  rw [Reader.turn_eq, if_pos (h.recalls_iff.mpr harrow), Reader.arrowKey_eq, h.counted.check, hentry,
    if_pos ⟨hkey, hprev⟩]
  exact ⟨rfl, congrArg Nat.cast hsame⟩

theorem state_typed (h : ∀ m, 1 ≤ m → m ≤ n → ¬c.Up m) : Typed c n (c.state n) := by
  induction n with
  | zero => exact first_typed
  | succ n ih =>
      rw [state_succ]
      exact (ih fun m hm hle => h m hm (Nat.le_succ_of_le hle)).turn
        (h (n + 1) (Nat.succ_pos n) (le_refl _))

end Typed

/-!
## The result
-/

/-- The loop stops in the state. -/
def Stops (k : Nat) : Prop :=
  (∀ j < k, (c.state j).Again c.count) ∧ ¬(c.state k).Again c.count

section Result

variable {c} {k n : Nat}

theorem again_iff (n : Nat) :
    (c.state n).Again c.count ↔ (c.state n).nread < c.count ∧ ¬c.LineEnd n := by
  unfold Reader.Again LineEnd
  rw [(state_counted n).ch]
  exact and_congr_right fun _ => not_or.symm

theorem behaves_of_eof (h : (c.terminal.input 0).result = EOF) : c.Behaves := by
  have hcall : c.call 0 =
      some (EOF, { c.terminal.enter c.mem c.buff with taken := 1 }) := by
    unfold call ttyread
    have hcount : ¬(c.count : Int) < 0 := by omega
    dsimp only
    rw [if_neg hcount, if_neg (not_not_intro c.cooked), if_pos h]
  refine ⟨0, _, hcall, ?_, ?_, Or.inl rfl⟩
  · intro addr haddr
    cases haddr
  · intro addr haddr
    cases haddr

theorem behaves_iff_stops (h : (c.terminal.input 0).result ≠ EOF) :
    c.Behaves ↔ ∃ k, c.Stops k ∧ c.Good ((c.state k).nread, c.state k) := by
  have hcall : ∀ fuel, c.call fuel =
      (Hops.loop (Reader.Again c.count) (Reader.turn c.terminal.node c.terminal.input) fuel
        (c.terminal.first c.mem c.buff)).map fun t => (t.nread, t) := fun fuel => by
    unfold call ttyread
    have hcount : ¬(c.count : Int) < 0 := by omega
    dsimp only
    rw [if_neg hcount, if_neg (not_not_intro c.cooked), if_neg h]
  constructor
  · rintro ⟨fuel, r, hr, hgood⟩
    rw [hcall] at hr
    rcases Option.map_eq_some_iff.mp hr with ⟨t, ht, rfl⟩
    rcases Hops.loop_eq_some_iff.mp ht with ⟨k, _, hbefore, hlast, rfl⟩
    exact ⟨k, ⟨hbefore, hlast⟩, hgood⟩
  · rintro ⟨k, hstops, hgood⟩
    refine ⟨k + 1, _, ?_, hgood⟩
    rw [hcall]
    exact Option.map_eq_some_iff.mpr ⟨c.state k,
      Hops.loop_eq_some_iff.mpr ⟨k, Nat.lt_succ_self k, hstops.1, hstops.2, rfl⟩, rfl⟩

/-- Stores in the caller's bytes are not stores in the history. -/
theorem not_inHistory {addr : Nat} (hlow : c.buff ≤ addr) (hhigh : addr < c.buff + c.count) :
    ¬c.InHistory addr := by
  rintro ⟨m, hstr, i, hi, rfl⟩
  have hapart := c.apart m hstr i hi
  omega

theorem good_of_nread (hlt : n < c.count) (hnread : (c.state n).nread = n + 1)
    (hstores : ∀ addr ∈ (c.state n).stores, c.buff ≤ addr ∧ addr ≤ c.buff + n) :
    c.Good ((c.state n).nread, c.state n) where
  inside := fun addr haddr => ⟨(hstores addr haddr).1, by
    have hle := (hstores addr haddr).2
    omega⟩
  apart := fun addr haddr => by
    have hin := hstores addr haddr
    exact not_inHistory hin.1 (by omega)
  result := by
    have hlen : (c.state n).stores.length = n + 1 := (state_counted n).stores
    dsimp only
    rw [hnread, hlen]
    exact Or.inr ⟨rfl, by omega, by omega⟩

/-- A line that recalls nothing is read as it is typed. -/
theorem behaves_of_noRecall (heof : (c.terminal.input 0).result ≠ EOF) (h : c.NoRecall) :
    c.Behaves := by
  have hpos := c.count_pos
  have hexists : ∃ n, n + 1 = c.count ∨ c.LineEnd n := ⟨c.count - 1, Or.inl (by omega)⟩
  classical
  have hlast := Nat.find_spec hexists
  have hbefore : ∀ m < Nat.find hexists, ¬(m + 1 = c.count ∨ c.LineEnd m) :=
    fun m => Nat.find_min hexists
  generalize Nat.find hexists = k at hlast hbefore
  have hlt : k < c.count := by
    by_contra hge
    exact hbefore (c.count - 1) (by omega) (Or.inl (by omega))
  have hquiet : ∀ n ≤ k, ∀ m, 1 ≤ m → m ≤ n → ¬c.Arrow m := fun n hn m hm hle harrow =>
    harrow.2 (h harrow.1 m hm ⟨by omega, fun j hj hline => hbefore j (by omega) (Or.inr hline)⟩)
  have htyped : ∀ n ≤ k, Typed c n (c.state n) := fun n hn =>
    state_typed fun m hm hle hup => hquiet n hn m hm hle ⟨hup.1, by rw [hup.2.1]; decide⟩
  have hnread : ∀ n ≤ k, (c.state n).nread = n + 1 := fun n hn =>
    (htyped n hn).nread_eq.mpr (hquiet n hn)
  refine (behaves_iff_stops heof).mpr ⟨k, ⟨fun j hj => ?_, ?_⟩,
    good_of_nread hlt (hnread k (le_refl k)) (htyped k (le_refl k)).stores⟩
  · have hgoes := hbefore j hj
    rw [again_iff, hnread j hj.le]
    exact ⟨by omega, fun hline => hgoes (Or.inr hline)⟩
  · rw [again_iff, hnread k (le_refl k)]
    rintro ⟨hroom, hline⟩
    cases hlast with
    | inl hfull => omega
    | inr hend => exact hline hend

/-- The state before the first command is recalled, and the one after it. -/
theorem state_up (hup : c.Up (n + 1)) (hfirst : ∀ m, 1 ≤ m → m ≤ n → ¬c.Up m)
    (hroom : n + 1 < c.count) :
    Typed c n (c.state n) ∧ (c.state (n + 1)).buff = c.entry.str ∧
      (c.state (n + 1)).nread = strlen c.mem c.entry.str := by
  have htyped : Typed c n (c.state n) := state_typed hfirst
  refine ⟨htyped, ?_⟩
  rw [state_succ]
  exact htyped.turn_up hup hroom

theorem stores_state_succ (n : Nat) :
    (c.state (n + 1)).stores = (c.state n).buff :: (c.state n).stores := by
  rw [state_succ, stores_turn]

/-- A command of the same length does not show. -/
theorem behaves_of_recallsSame (heof : (c.terminal.input 0).result ≠ EOF) (h : c.RecallsSame) :
    c.Behaves := by
  rcases h with ⟨hhistory, hprev, hlen, n, hn, hcount, hreads, hkey, hfirst⟩
  have hnoup : ∀ m, 1 ≤ m → m < n → ¬c.Up m := fun m hm hlt hup => hfirst m hm hlt hup.2.1
  cases n with
  | zero => omega
  | succ n =>
      have hup : c.Up (n + 1) := ⟨hhistory, hkey, hprev⟩
      rcases state_up hup (fun m hm hle => hnoup m hm (by omega)) hreads.1 with
        ⟨htyped, _, hnread⟩
      rw [hlen] at hnread
      refine (behaves_iff_stops heof).mpr ⟨n + 1, ⟨fun j hj => ?_, ?_⟩,
        good_of_nread hreads.1 (by omega) ?_⟩
      · have hle := (state_typed (n := j) fun m hm hle => hnoup m hm (by omega)).nread_le
        rw [again_iff]
        exact ⟨by omega, hreads.2 j hj⟩
      · rw [again_iff]
        rintro ⟨hroom, _⟩
        omega
      · have hbuff := htyped.buff_le
        have hlow := htyped.le_buff
        rw [stores_state_succ]
        intro addr haddr
        rcases List.mem_cons.mp haddr with rfl | hold
        · omega
        · have hin := htyped.stores addr hold
          omega

/-- When nothing is recalled in the turns, the count shows that no arrow had an effect. -/
theorem noRecall_of_nread {k : Nat} (hnoup : ∀ m, 1 ≤ m → m ≤ k → ¬c.Up m)
    (hstops : c.Stops k) (hnread : (c.state k).nread = k + 1) : c.NoRecall := by
  have hquiet := (state_typed hnoup).nread_eq.mp hnread
  intro hhistory n hn hreads
  by_contra hkey
  by_cases hle : n ≤ k
  · exact hquiet n hn hle ⟨hhistory, hkey⟩
  · have hroom := hreads.1
    have hline := hreads.2 k (by omega)
    apply hstops.2
    rw [again_iff]
    exact ⟨by omega, hline⟩

theorem noRecall_or_recallsSame (heof : (c.terminal.input 0).result ≠ EOF) (h : c.Behaves) :
    c.NoRecall ∨ c.RecallsSame := by
  rcases (behaves_iff_stops heof).mp h with ⟨k, hstops, hgood⟩
  have hlow := (state_counted (c := c) k).nread
  have hresult : (c.state k).nread = k + 1 ∧ k + 1 ≤ c.count := by
    have hlen : (c.state k).stores.length = k + 1 := (state_counted k).stores
    rcases hgood.result with hend | ⟨heq, _, hle⟩
    · dsimp only at hend
      unfold EOF at hend
      omega
    · dsimp only at heq hle
      omega
  by_cases hexists : ∃ m, 1 ≤ m ∧ m ≤ k ∧ c.Up m
  · right
    classical
    have hspec := Nat.find_spec hexists
    have hleast : ∀ m < Nat.find hexists, ¬(1 ≤ m ∧ m ≤ k ∧ c.Up m) :=
      fun m => Nat.find_min hexists
    generalize Nat.find hexists = u at hspec hleast
    rcases hspec with ⟨hu, huk, hup⟩
    cases u with
    | zero => omega
    | succ n =>
        have hroom : n + 1 < c.count := by omega
        rcases state_up hup (fun m hm hle hupm => hleast m (by omega) ⟨hm, by omega, hupm⟩) hroom
          with ⟨htyped, hbuff, hnread⟩
        by_cases hlast : n + 1 = k
        · -- The loop has stopped with the command, which is then not shorter than the line.
          rw [hlast] at hnread
          have hstop := hstops.2
          rw [again_iff, not_and_or, not_not] at hstop
          have hch := key_eq_one c hup.2.1
          have hfull : (c.count : Int) ≤ k + 1 := by
            rcases hstop with hge | hline
            · omega
            · rw [LineEnd, ← hlast, hch] at hline
              rcases hline with hnl | hcr
              · cases hnl
              · cases hcr
          refine ⟨hup.1, hup.2.2, by omega, k, by omega, by omega, ⟨by omega, fun m hm => ?_⟩, ?_, ?_⟩
          · exact ((again_iff m).mp (hstops.1 m hm)).2
          · rw [← hlast]
            exact hup.2.1
          · intro m hm hlt hkey
            exact hleast m (by omega) ⟨hm, by omega, hup.1, hkey, hup.2.2⟩
        · -- The next character is stored into the command.
          exfalso
          have hstored : c.entry.str ∈ (c.state (n + 1 + 1)).stores := by
            rw [stores_state_succ, hbuff]
            exact List.mem_cons_self
          have hmem := mem_stores hstored (k - (n + 1 + 1))
          rw [Nat.add_sub_cancel' (by omega)] at hmem
          exact hgood.apart _ hmem ⟨_, hup.1.2, 0, Nat.zero_le _, rfl⟩
  · exact Or.inl (noRecall_of_nread (fun m hm hle hup => hexists ⟨m, hm, hle, hup⟩) hstops hresult.1)

end Result

/-- A read is right if and only if no arrow key has an effect, or there is nothing to read,
or a command is recalled that has just the length of the line. -/
theorem behaves_iff : c.Behaves ↔
    (c.terminal.input 0).result = EOF ∨ c.NoRecall ∨ c.RecallsSame := by
  by_cases heof : (c.terminal.input 0).result = EOF
  · exact iff_of_true (behaves_of_eof heof) (Or.inl heof)
  · rw [or_iff_right heof]
    constructor
    · exact noRecall_or_recallsSame heof
    · rintro (hno | hsame)
      · exact behaves_of_noRecall heof hno
      · exact behaves_of_recallsSame heof hsame

end CookedRead

/-- An up arrow in a read of ten characters, when the last command was {lit}`ls`. -/
def upArrow : CookedRead where
  terminal := {
    node := fun addr => if addr = 100 then { str := 200, prev := 112, next := NULL }
      else { str := NULL, prev := NULL, next := NULL }
    cmdhistory := 100
    input := fun n => { result := [23, 91, 65].getD n 10, shellpid := 5, prstate := .wait }
    tyimode := .cooked
    avail := 4
    special := { chesc := false, arrow := false }
    tmpcmd := NULL }
  cooked := rfl
  mem := fun addr => if addr = 200 then 108 else if addr = 201 then 115 else 0
  buff := 1000
  count := 10
  count_pos := by decide
  apart := by
    intro addr haddr i hi
    dsimp only at haddr hi ⊢
    split at haddr
    · rename_i hnode
      rw [if_pos hnode] at hi ⊢
      have hlen : strlen (fun addr => if addr = 200 then 108 else if addr = 201 then 115 else 0)
          200 = 2 := rfl
      rw [hlen] at hi
      exact Or.inl (by dsimp only; omega)
    · exact absurd rfl haddr

theorem upArrow_not_behaves : ¬∀ c : CookedRead, c.Behaves := by
  intro hall
  have hkey : upArrow.key 2 = 1 := by decide
  have hlines : ∀ m < 2, ¬upArrow.LineEnd m := by
    unfold CookedRead.LineEnd
    decide
  have hhistory : upArrow.HasHistory := by
    constructor
    · decide
    · decide
  rcases CookedRead.noRecall_or_recallsSame (by decide) (hall upArrow) with hno | ⟨_, _, hlen, _⟩
  · have hzero := hno hhistory 2 (by decide) ⟨by decide, hlines⟩
    rw [hkey] at hzero
    cases hzero
  · have hls : strlen upArrow.mem upArrow.entry.str = 2 := rfl
    rw [hls] at hlen
    cases hlen

end Tty
end BbbXinu
