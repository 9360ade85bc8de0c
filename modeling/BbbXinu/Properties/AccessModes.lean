import BbbXinu.Lib.Runs
import BbbXinu.Properties.FileContents

/-!
# Access modes

{lit}`lfsopen` stores the mode with which a file is opened, and no other call looks at
it.  A file that is open for reading only keeps its bytes as long as nobody writes to it
what it does not already hold.
-/

namespace BbbXinu

namespace FileSys

variable (f : FileSys) (d : Fin Nlfl)

/-- The bytes of the file that is open on a device. -/
def bytesOn : List UInt8 :=
  match f.opens d with
  | some (i, _) => f.content i
  | none => []

/-- Its bytes from the position on. -/
def ahead : List UInt8 :=
  match f.opens d with
  | some (i, pos) => (f.content i).drop pos
  | none => []

/-- The call does not change the file that is open on the device: what it stores is there
already. -/
def Harmless : LfsCall → Prop
  | .lflputc d' ch => d' = d → (f.ahead d)[0]? = some ch
  | .lflwrite d' buff count => d' = d → ∀ k < count.toNat, (f.ahead d)[k]? = some (buff k)
  | .lflcontrol d' func => d' = d → func = LF_CTL_TRUNC → f.bytesOn d = []
  | _ => True

instance : (c : LfsCall) → Decidable (Harmless f d c)
  | .lfsopen _ _ => isTrue trivial
  | .lflclose _ => isTrue trivial
  | .lflgetc _ => isTrue trivial
  | .lflputc _ _ => inferInstanceAs (Decidable (_ → _))
  | .lflread _ _ => isTrue trivial
  | .lflwrite _ _ _ => inferInstanceAs (Decidable (_ → _))
  | .lflseek _ _ => isTrue trivial
  | .lflcontrol _ _ => inferInstanceAs (Decidable (_ → _))

/-- The call does not read on the device, or has a bad count. -/
def Readless : LfsCall → Prop
  | .lflgetc d' => d' ≠ d
  | .lflread d' count => d' = d → count < 0
  | _ => True

instance : (c : LfsCall) → Decidable (Readless d c)
  | .lfsopen _ _ => isTrue trivial
  | .lflclose _ => isTrue trivial
  | .lflgetc _ => inferInstanceAs (Decidable (_ → _))
  | .lflputc _ _ => isTrue trivial
  | .lflread _ _ => inferInstanceAs (Decidable (_ → _))
  | .lflwrite _ _ _ => isTrue trivial
  | .lflseek _ _ => isTrue trivial
  | .lflcontrol _ _ => isTrue trivial

end FileSys

/-- What an observer keeps: the files of the specification, for each device the mode with
which its file was opened and the bytes of the file then, and what reads returned on
devices whose file was opened without read. -/
structure ModeLog where
  files : FileSys
  mode : Fin Nlfl → UInt32
  start : Fin Nlfl → List UInt8
  denied : List Int

namespace Lfs

/-- The mode bits that a call asks for. -/
def askedMode : LfsCall → UInt32
  | .lfsopen _ mode => (lfgetmode mode).getD 0
  | _ => 0

/-- The device on which a call reads. -/
def readsOn : LfsCall → Option (Fin Nlfl)
  | .lflgetc d => some d
  | .lflread d _ => some d
  | _ => none

/-- What a call returns. -/
def returned (s : Lfs) (c : LfsCall) : Int := ((Prog.run (code c) s).map fun t => t.2.1).getD 0

def noteModes (h : ModeLog) (s : Lfs) (c : LfsCall) (_ : Lfs) : ModeLog :=
  let f := (h.files.call (fun d => (s.lfltab d).lfdev) c).1
  { files := f
    mode := fun d => if h.files.opens d = none then askedMode c else h.mode d
    start := fun d => if h.files.opens d = none then f.bytesOn d else h.start d
    denied :=
      match readsOn c with
      | some d =>
          if h.files.opens d ≠ none ∧ h.mode d &&& LF_MODE_R = 0 then returned s c :: h.denied
          else h.denied
      | none => h.denied }

/-- A file that was opened without write is as it was opened, and all reads on files that
were opened without read have failed. -/
structure ModesHold (h : ModeLog) : Prop where
  kept : ∀ d, h.files.opens d ≠ none → h.mode d &&& LF_MODE_W = 0 → h.files.bytesOn d = h.start d
  denied : ∀ r ∈ h.denied, r = SYSERR

/-- Nobody makes use of an access that the mode excludes. -/
def ModeCalls (t : Lfs × ModeLog) (c : LfsCall) : Prop :=
  ∀ d, t.2.files.opens d ≠ none →
    (t.2.mode d &&& LF_MODE_W = 0 → t.2.files.Harmless d c) ∧
    (t.2.mode d &&& LF_MODE_R = 0 → FileSys.Readless d c)

instance (t : Lfs × ModeLog) (c : LfsCall) : Decidable (ModeCalls t c) :=
  inferInstanceAs (Decidable (∀ _, _))

/-- The system as it is started on a formatted disk, before anything is observed. -/
def ModeStart (lfiblks dsiz : UInt32) (t : Lfs × ModeLog) : Prop :=
  Formatted lfiblks dsiz t.1 ∧
    t.2 = { files := FileSys.empty, mode := fun _ => 0, start := fun _ => [], denied := [] }

end Lfs

section

variable {f : FileSys} {d d' : Fin Nlfl} {i j p pos : Nat} {bytes l : List UInt8} {ch : UInt8}

/-!
## Storing what is there
-/

theorem putByte_eq_self (hp : p ≤ bytes.length) :
    putByte bytes p ch = bytes ↔ bytes[p]? = some ch := by
  constructor
  · intro heq
    have hget : (putByte bytes p ch)[p]? = if p = p then some ch else bytes[p]? :=
      Lfs.putByte_getElem? hp
    rw [heq, if_pos rfl] at hget
    exact hget
  · intro hget
    apply List.ext_getElem?
    intro q
    rw [Lfs.putByte_getElem? hp]
    by_cases hq : q = p
    · rw [if_pos hq, hq, hget]
    · rw [if_neg hq]

theorem putBytes_getElem? (hp : p ≤ bytes.length) (q : Nat) :
    (putBytes bytes p l)[q]? = if p ≤ q ∧ q < p + l.length then l[q - p]? else bytes[q]? := by
  induction l generalizing bytes p with
  | nil => rw [if_neg (by rw [List.length_nil]; omega), putBytes]
  | cons ch l ih =>
      have hlen : (putByte bytes p ch).length = max bytes.length (p + 1) := Lfs.putByte_length hp
      rw [putBytes, ih (by omega), Lfs.putByte_getElem? hp, List.length_cons]
      by_cases hq : q = p
      · rw [if_neg (by omega), if_pos hq, if_pos (by omega), hq, Nat.sub_self]
        rfl
      · by_cases hin : p + 1 ≤ q ∧ q < p + 1 + l.length
        · rw [if_pos hin, if_pos (by omega), show q - p = q - (p + 1) + 1 by omega,
            List.getElem?_cons_succ]
        · rw [if_neg hin, if_neg hq, if_neg (by omega)]

theorem putBytes_eq_self (hp : p ≤ bytes.length) :
    putBytes bytes p l = bytes ↔ ∀ k < l.length, bytes[p + k]? = l[k]? := by
  constructor
  · intro heq k hk
    have hget := putBytes_getElem? (l := l) hp (p + k)
    rw [heq, if_pos (by omega), Nat.add_sub_cancel_left] at hget
    exact hget
  · intro hsame
    apply List.ext_getElem?
    intro q
    rw [putBytes_getElem? hp]
    by_cases hq : p ≤ q ∧ q < p + l.length
    · have hget := hsame (q - p) (by omega)
      rw [if_pos hq, ← hget, show p + (q - p) = q by omega]
    · rw [if_neg hq]

/-!
## What a call does to a file that stays open
-/

namespace FileSys

/-- Open files exist, with positions inside, and each is open once. -/
structure Placed (f : FileSys) : Prop where
  lt : ∀ d i pos, f.opens d = some (i, pos) → i < f.files.length
  le : ∀ d i pos, f.opens d = some (i, pos) → pos ≤ (f.content i).length
  apart : ∀ d d' i p p', f.opens d = some (i, p) → f.opens d' = some (i, p') → d = d'

/-- The file {lit}`i` is still open on the device, and it is the same if and only if
{lit}`P` holds. -/
def StaysOpen (f f' : FileSys) (d : Fin Nlfl) (i : Nat) (P : Prop) : Prop :=
  ∃ pos, f'.opens d = some (i, pos) ∧ (f'.content i = f.content i ↔ P)

theorem staysOpen_same (hd : f.opens d = some (i, pos)) {P : Prop} (hP : P) :
    f.StaysOpen f d i P :=
  ⟨pos, hd, iff_of_true rfl hP⟩

/-- The position on a device is moved. -/
theorem staysOpen_setOpen (hd : f.opens d = some (i, pos)) (hd' : f.opens d' = some (j, p))
    (p' : Nat) {P : Prop} (hP : P) : f.StaysOpen (f.setOpen d' (some (j, p'))) d i P := by
  by_cases hdd : d = d'
  · subst hdd
    rw [hd] at hd'
    cases hd'
    exact ⟨p', upd_self, iff_of_true rfl hP⟩
  · exact ⟨pos, (upd_of_ne hdd).trans hd, iff_of_true rfl hP⟩

/-- The file that is open on a device gets other bytes. -/
theorem Placed.staysOpen_setContent (hf : f.Placed) (hd : f.opens d = some (i, pos))
    (hd' : f.opens d' = some (j, p)) (p' : Nat) (bytes : List UInt8) :
    f.StaysOpen ((f.setContent j bytes).setOpen d' (some (j, p'))) d i
      (d' = d → bytes = f.content i) := by
  by_cases hdd : d' = d
  · subst hdd
    rw [hd] at hd'
    cases hd'
    refine ⟨p', upd_self, ?_⟩
    rw [Lfs.content_setOpen, Lfs.content_setContent_self (hf.lt d' _ _ hd)]
    exact ⟨fun h _ => h, fun h => h rfl⟩
  · have hij : i ≠ j := by
      rintro rfl
      exact hdd (hf.apart d' d i p pos hd' hd)
    refine ⟨pos, (upd_of_ne (Ne.symm hdd)).trans hd, ?_⟩
    rw [Lfs.content_setOpen, Lfs.content_setContent_of_ne hij]
    exact iff_of_true rfl fun h => absurd h hdd

theorem ahead_getElem? (hd : f.opens d = some (i, pos)) (k : Nat) :
    (f.ahead d)[k]? = (f.content i)[pos + k]? := by
  unfold ahead
  rw [hd]
  exact List.getElem?_drop

theorem bytesOn_eq (hd : f.opens d = some (i, pos)) : f.bytesOn d = f.content i := by
  unfold bytesOn
  rw [hd]

/-- Opening a file uses a device on which none is open. -/
theorem staysOpen_openFile (dev : Fin Nlfl → Int) (name mode : List UInt8)
    (hd : f.opens d = some (i, pos)) {P : Prop} (hP : P) :
    f.StaysOpen (f.openFile dev name mode).1 d i P := by
  unfold openFile
  split
  · exact staysOpen_same hd hP
  · split
    · rename_i mbits d' _ hfree
      have hne : d ≠ d' := by
        rintro rfl
        rw [Lfs.freeDevice_some hfree] at hd
        cases hd
      split
      · split
        · exact staysOpen_same hd hP
        · refine ⟨pos, (upd_of_ne hne).trans hd, iff_of_true ?_ hP⟩
          exact Lfs.content_addFile (f := f)
      · split
        · exact staysOpen_same hd hP
        · exact ⟨pos, (upd_of_ne hne).trans hd, iff_of_true rfl hP⟩
    · exact staysOpen_same hd hP

/-- A file stays open unless its device is closed, and stays the same if and only if the call
is harmless. -/
theorem Placed.call (hf : f.Placed) (dev : Fin Nlfl → Int) (hd : f.opens d = some (i, pos))
    (c : LfsCall) (hopen : (f.call dev c).1.opens d ≠ none) :
    f.StaysOpen (f.call dev c).1 d i (f.Harmless d c) := by
  cases c with
  | lfsopen name mode => exact staysOpen_openFile dev name mode hd trivial
  | lflclose d' =>
      change (f.close d').1.opens d ≠ none at hopen
      change f.StaysOpen (f.close d').1 d i _
      unfold close at hopen ⊢
      cases hd' : f.opens d' with
      | none => exact staysOpen_same hd trivial
      | some o =>
          rw [hd'] at hopen
          have hne : d ≠ d' := by
            rintro rfl
            exact hopen upd_self
          exact ⟨pos, (upd_of_ne hne).trans hd, iff_of_true rfl trivial⟩
  | lflgetc d' =>
      change f.StaysOpen (f.getc d').1 d i _
      unfold getc
      cases hd' : f.opens d' with
      | none => exact staysOpen_same hd trivial
      | some o =>
          dsimp only
          split
          · exact staysOpen_same hd trivial
          · exact staysOpen_setOpen hd hd' _ trivial
  | lflputc d' ch =>
      change f.StaysOpen (f.putc d' ch).1 d i (d' = d → _)
      unfold putc
      cases hd' : f.opens d' with
      | none =>
          apply staysOpen_same hd
          rintro rfl
          rw [hd] at hd'
          cases hd'
      | some o =>
          rcases hf.staysOpen_setContent hd hd' (o.2 + 1) (putByte (f.content o.1) o.2 ch) with
            ⟨p', hp', hiff⟩
          refine ⟨p', hp', hiff.trans ?_⟩
          apply forall_congr'
          rintro rfl
          rw [hd] at hd'
          cases hd'
          rw [ahead_getElem? hd, Nat.add_zero]
          exact putByte_eq_self (hf.le _ _ _ hd)
  | lflread d' count =>
      change f.StaysOpen (f.read d' count).1 d i _
      unfold read
      split
      · exact staysOpen_same hd trivial
      · split
        · exact staysOpen_same hd trivial
        · cases hd' : f.opens d' with
          | none => exact staysOpen_same hd trivial
          | some o =>
              dsimp only
              split
              · exact staysOpen_same hd trivial
              · exact staysOpen_setOpen hd hd' _ trivial
  | lflwrite d' buff count =>
      change f.StaysOpen (f.write d' buff count).1 d i (d' = d → _)
      unfold write
      split
      · refine staysOpen_same hd fun _ k hk => ?_
        omega
      · split
        · refine staysOpen_same hd fun _ k hk => ?_
          omega
        · cases hd' : f.opens d' with
          | none =>
              apply staysOpen_same hd
              rintro rfl
              rw [hd] at hd'
              cases hd'
          | some o =>
              rcases hf.staysOpen_setContent hd hd'
                (o.2 + ((List.range count.toNat).map buff).length)
                (putBytes (f.content o.1) o.2 ((List.range count.toNat).map buff)) with
                ⟨p', hp', hiff⟩
              refine ⟨p', hp', hiff.trans ?_⟩
              apply forall_congr'
              rintro rfl
              rw [hd] at hd'
              cases hd'
              rw [putBytes_eq_self (hf.le _ _ _ hd), List.length_map, List.length_range]
              apply forall_congr'
              intro k
              apply forall_congr'
              intro hk
              rw [ahead_getElem? hd, List.getElem?_map, List.getElem?_range hk]
              rfl
  | lflseek d' offset =>
      change f.StaysOpen (f.seek d' offset.toNat).1 d i _
      unfold seek
      cases hd' : f.opens d' with
      | none => exact staysOpen_same hd trivial
      | some o =>
          dsimp only
          split
          · exact staysOpen_setOpen hd hd' _ trivial
          · exact staysOpen_same hd trivial
  | lflcontrol d' func =>
      change f.StaysOpen (f.control d' func).1 d i (d' = d → func = LF_CTL_TRUNC → _)
      unfold control
      cases hd' : f.opens d' with
      | none =>
          apply staysOpen_same hd
          rintro rfl
          rw [hd] at hd'
          cases hd'
      | some o =>
          dsimp only
          split
          · rename_i hfunc
            rcases hf.staysOpen_setContent hd hd' 0 [] with ⟨p', hp', hiff⟩
            refine ⟨p', hp', hiff.trans ?_⟩
            rw [bytesOn_eq hd]
            exact ⟨fun h hdd _ => (h hdd).symm, fun h hdd => (h hdd hfunc).symm⟩
          · rename_i hfunc
            exact staysOpen_same hd fun _ h => absurd h hfunc

theorem opens_stored (hd : f.opens d ≠ none) (d' : Fin Nlfl) (o : Nat × Nat) (bytes : List UInt8) :
    ((f.setContent o.1 bytes).setOpen d' (some o)).opens d ≠ none := by
  by_cases hdd : d = d'
  · rw [hdd, Lfs.opens_setOpen]
    exact Option.some_ne_none o
  · change upd f.opens d' (some o) d ≠ none
    rw [upd_of_ne hdd]
    exact hd

/-- A call that ends with the device closed stores nothing. -/
theorem harmless_of_closed (dev : Fin Nlfl → Int) (hd : f.opens d ≠ none) (c : LfsCall)
    (hclosed : (f.call dev c).1.opens d = none) : f.Harmless d c := by
  cases c with
  | lfsopen name mode => trivial
  | lflclose d' => trivial
  | lflgetc d' => trivial
  | lflread d' count => trivial
  | lflseek d' offset => trivial
  | lflputc d' ch =>
      change (f.putc d' ch).1.opens d = none at hclosed
      unfold putc at hclosed
      split at hclosed
      · exact absurd hclosed hd
      · exact absurd hclosed (opens_stored hd _ _ _)
  | lflwrite d' buff count =>
      change (f.write d' buff count).1.opens d = none at hclosed
      unfold write at hclosed
      split at hclosed
      · exact absurd hclosed hd
      · split at hclosed
        · exact absurd hclosed hd
        · split at hclosed
          · exact absurd hclosed hd
          · exact absurd hclosed (opens_stored hd _ _ _)
  | lflcontrol d' func =>
      change (f.control d' func).1.opens d = none at hclosed
      unfold control at hclosed
      split at hclosed
      · exact absurd hclosed hd
      · split at hclosed
        · exact absurd hclosed (opens_stored hd _ _ _)
        · exact absurd hclosed hd

/-- Reading on an open file fails for a bad count only. -/
theorem returned_iff (dev : Fin Nlfl → Int) (hd : f.opens d ≠ none) {c : LfsCall}
    (hreads : Lfs.readsOn c = some d) : (f.call dev c).2.1 = SYSERR ↔ Readless d c := by
  rcases Option.ne_none_iff_exists'.mp hd with ⟨o, ho⟩
  cases c with
  | lflgetc d' =>
      cases hreads
      change (f.getc d).2 = SYSERR ↔ d ≠ d
      refine iff_of_false ?_ (not_not.mpr rfl)
      unfold getc
      rw [ho]
      dsimp only
      split
      · exact (by decide : ¬ EOF = SYSERR)
      · intro heq
        exact absurd heq (by unfold SYSERR; dsimp only; omega)
  | lflread d' count =>
      cases hreads
      change (f.read d count).2.1 = SYSERR ↔ (d = d → count < 0)
      unfold read
      by_cases hneg : count < 0
      · rw [if_pos hneg]
        exact iff_of_true rfl fun _ => hneg
      · rw [if_neg hneg]
        refine iff_of_false ?_ fun h => hneg (h rfl)
        by_cases hzero : count = 0
        · rw [if_pos hzero]
          exact (by decide : ¬ (0 : Int) = SYSERR)
        · rw [if_neg hzero, ho]
          dsimp only
          split
          · exact (by decide : ¬ EOF = SYSERR)
          · intro heq
            exact absurd heq (by unfold SYSERR; dsimp only; omega)
  | lfsopen name mode => cases hreads
  | lflclose d' => cases hreads
  | lflputc d' ch => cases hreads
  | lflwrite d' buff count => cases hreads
  | lflseek d' offset => cases hreads
  | lflcontrol d' func => cases hreads

theorem readless_of_ne {c : LfsCall} (h : Lfs.readsOn c ≠ some d) : Readless d c := by
  cases c with
  | lflgetc d' =>
      rintro rfl
      exact h rfl
  | lflread d' count =>
      rintro rfl
      exact absurd rfl h
  | lfsopen name mode => trivial
  | lflclose d' => trivial
  | lflputc d' ch => trivial
  | lflwrite d' buff count => trivial
  | lflseek d' offset => trivial
  | lflcontrol d' func => trivial

end FileSys

/-!
## One call
-/

namespace Lfs

open Runs

variable {geo : Geometry} {dev : Fin Nlfl → Int} {s s' : Lfs} {h h' : ModeLog} {c : LfsCall}

theorem Stands.placed (hs : Stands geo dev s f) : f.Placed := by
  rcases hs.sound with ⟨C, hC⟩
  exact ⟨fun d i pos hd => (hC.live d i pos hd).lt, fun d i pos hd => (hC.live d i pos hd).le,
    hC.apart⟩

/-- What the observer notes is what the specification does. -/
theorem Stands.noted (hs : Stands geo dev s h.files) (hstep : Lfs.step s c = some s') :
    noteModes h s c s' =
      { files := (h.files.call dev c).1
        mode := fun d => if h.files.opens d = none then askedMode c else h.mode d
        start := fun d =>
          if h.files.opens d = none then (h.files.call dev c).1.bytesOn d else h.start d
        denied :=
          match readsOn c with
          | some d =>
              if h.files.opens d ≠ none ∧ h.mode d &&& LF_MODE_R = 0 then
                (h.files.call dev c).2.1 :: h.denied
              else h.denied
          | none => h.denied } ∧ Stands geo dev s' (h.files.call dev c).1 := by
  have hdev : (fun d => (s.lfltab d).lfdev) = dev := funext hs.dev
  rcases Option.map_eq_some_iff.mp hstep with ⟨t, ht, rfl⟩
  rcases hs.call c with ⟨s'', hrun, hstands⟩ | ⟨hnone, _⟩
  · rw [hrun] at ht
    cases ht
    have hret : returned s c = (h.files.call dev c).2.1 := by
      unfold returned
      rw [hrun]
      rfl
    refine ⟨?_, hstands⟩
    unfold noteModes
    rw [hret, hdev]
  · rw [hnone] at ht
    cases ht

/-- A call keeps the modes if and only if it makes no use of an access that a mode
excludes. -/
theorem Stands.modes (hs : Stands geo dev s h.files) (hh : ModesHold h)
    (hstep : Lfs.step s c = some s') : ModesHold (noteModes h s c s') ↔ ModeCalls (s, h) c := by
  rw [(hs.noted hstep).1]
  have hf := hs.placed
  constructor
  · intro hh' d hd
    rcases Option.ne_none_iff_exists'.mp hd with ⟨⟨i, pos⟩, ho⟩
    constructor
    · intro hmode
      by_cases hopen : (h.files.call dev c).1.opens d = none
      · exact FileSys.harmless_of_closed dev hd c hopen
      · rcases hf.call dev ho c hopen with ⟨pos', ho', hiff⟩
        have hkept := hh'.kept d hopen
        dsimp only at hkept
        rw [if_neg hd, if_neg hd, FileSys.bytesOn_eq ho'] at hkept
        rw [← hiff, hkept hmode, ← hh.kept d hd hmode, FileSys.bytesOn_eq ho]
    · intro hmode
      by_cases hreads : readsOn c = some d
      · rw [← FileSys.returned_iff dev hd hreads]
        apply hh'.denied
        dsimp only
        rw [hreads]
        dsimp only
        rw [if_pos ⟨hd, hmode⟩]
        exact List.mem_cons_self
      · exact FileSys.readless_of_ne hreads
  · intro hc
    constructor
    · intro d hopen hmode
      dsimp only at hopen hmode ⊢
      by_cases hd : h.files.opens d = none
      · rw [if_pos hd]
      · rw [if_neg hd] at hmode ⊢
        rcases Option.ne_none_iff_exists'.mp hd with ⟨⟨i, pos⟩, ho⟩
        rcases hf.call dev ho c hopen with ⟨pos', ho', hiff⟩
        rw [FileSys.bytesOn_eq ho', hiff.mpr ((hc d hd).1 hmode), ← FileSys.bytesOn_eq ho]
        exact hh.kept d hd hmode
    · intro r hr
      dsimp only at hr
      cases hreads : readsOn c with
      | none =>
          rw [hreads] at hr
          exact hh.denied r hr
      | some d =>
          rw [hreads] at hr
          dsimp only at hr
          by_cases hd : h.files.opens d ≠ none ∧ h.mode d &&& LF_MODE_R = 0
          · rw [if_pos hd] at hr
            cases hr with
            | head => exact (FileSys.returned_iff dev hd.1 hreads).mpr ((hc d hd.1).2 hd.2)
            | tail _ hr => exact hh.denied r hr
          · rw [if_neg hd] at hr
            exact hh.denied r hr

/-!
## Every run
-/

/-- In every run in which nobody makes use of an access that a mode excludes, the observer
sees the files of the disk, and the modes hold. -/
theorem access_modes {lfiblks dsiz : UInt32} (hroom : HasRoom lfiblks dsiz) {t : Lfs × ModeLog}
    (ht : Reach (observed Lfs.step noteModes) ModeCalls (ModeStart lfiblks dsiz) t) :
    Stands (geometry hroom) (fun d => (t.1.lfltab d).lfdev) t.1 t.2.files ∧ ModesHold t.2 := by
  apply ht.invariant (I := fun t =>
    Stands (geometry hroom) (fun d => (t.1.lfltab d).lfdev) t.1 t.2.files ∧ ModesHold t.2)
  · intro t hstart
    rcases t with ⟨s, h⟩
    rcases hstart with ⟨hs, rfl⟩
    refine ⟨hs.stands hroom, ?_, ?_⟩
    · intro d hd
      exact absurd rfl hd
    · intro r hr
      cases hr
  · intro t c t' _ hI hc hstep
    rcases hI with ⟨hs, hh⟩
    rcases observed_eq hstep with ⟨hstep', hnote⟩
    have hnoted := hs.noted hstep'
    have hdev : (fun d => (t'.1.lfltab d).lfdev) = fun d => (t.1.lfltab d).lfdev :=
      funext hnoted.2.dev
    rw [hnote]
    refine ⟨?_, (hs.modes hh hstep').mpr hc⟩
    rw [hdev, hnoted.1]
    exact hnoted.2

/-- A file is written, and opened again for reading only. -/
theorem access_modes_reading :
    ∃ t : Lfs × ModeLog, (t.2.files.opens 0 ≠ none ∧ t.2.start 0 = [65]) ∧
      Stands (geometry smallSystem_hasRoom) (fun d => (t.1.lfltab d).lfdev) t.1 t.2.files ∧
      ModesHold t.2 := by
  have hrun : ∃ t, Reach (observed Lfs.step noteModes) ModeCalls (ModeStart 7 3072) t ∧
      (t.2.files.opens 0 ≠ none ∧ t.2.start 0 = [65]) :=
    exists_reach_of_follow (observed Lfs.step noteModes) ModeCalls
      (s := (smallSystem, ⟨FileSys.empty, fun _ => 0, fun _ => [], []⟩))
      (by exact ⟨smallSystem_formatted, rfl⟩)
      [.lfsopen [97] [119], .lflputc 0 65, .lflclose 0, .lfsopen [97] [114], .lflgetc 0]
      (fun t => t.2.files.opens 0 ≠ none ∧ t.2.start 0 = [65]) (by decide +kernel)
  rcases hrun with ⟨t, ht, hp⟩
  exact ⟨t, hp, access_modes smallSystem_hasRoom ht⟩

/-- A file opened for reading only gets a byte. -/
theorem access_modes_ignored :
    ¬ ∀ t : Lfs × ModeLog,
      Reach (observed Lfs.step noteModes) (fun _ _ => True) (ModeStart 7 3072) t →
        ModesHold t.2 := by
  intro hall
  have hrun : ∃ t, Reach (observed Lfs.step noteModes) (fun _ _ => True) (ModeStart 7 3072) t ∧
      (t.2.files.opens 0 ≠ none ∧ t.2.mode 0 &&& LF_MODE_W = 0 ∧
        t.2.files.bytesOn 0 ≠ t.2.start 0) :=
    exists_reach_of_follow (observed Lfs.step noteModes) (fun _ _ => True)
      (s := (smallSystem, ⟨FileSys.empty, fun _ => 0, fun _ => [], []⟩))
      (by exact ⟨smallSystem_formatted, rfl⟩)
      [.lfsopen [97] [114], .lflputc 0 65]
      (fun t => t.2.files.opens 0 ≠ none ∧ t.2.mode 0 &&& LF_MODE_W = 0 ∧
        t.2.files.bytesOn 0 ≠ t.2.start 0) (by decide +kernel)
  rcases hrun with ⟨t, ht, hopen, hmode, hchanged⟩
  exact hchanged ((hall t ht).kept 0 hopen hmode)

end Lfs

end

end BbbXinu
