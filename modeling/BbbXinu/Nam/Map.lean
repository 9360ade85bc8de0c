import BbbXinu.Kernel.State
import BbbXinu.Lib.CStrings

/-!
# The namespace

{lit}`mount` adds an entry to the table of names, and {lit}`nammap` maps a name to a
device and a name on it.  The table has the entries that were mounted, in that order: a
prefix and a replacement that end in their arrays, and a device that exists.
-/

namespace BbbXinu
namespace Nam

open CStrings

def NM_PRELEN : Nat := 64
def NM_REPLLEN : Nat := 96
def NM_MAXLEN : Nat := 256
def NNAMES : Nat := 40
def NDEVS : Int := 24

def isbaddev (f : Int) : Prop := f < 0 ∨ NDEVS ≤ f

instance (f : Int) : Decidable (isbaddev f) := inferInstanceAs (Decidable (_ ∨ _))

/-- {lit}`struct nmentry`. -/
structure Nmentry where
  nprefix : Nat → UInt8
  nreplace : Nat → UInt8
  ndevice : Int

/-- The length of a string with its null byte, if it is not longer than {lit}`maxlen`. -/
def namlen (name : Nat → UInt8) (maxlen : Nat) : Int :=
  match nullAt name maxlen with
  | some i => i + 1
  | none => SYSERR

/-- Copy a name, up to {lit}`buflen` bytes of it. -/
def namcpy (newname oldname : Nat → UInt8) (buflen : Nat) : (Nat → UInt8) × Int :=
  match nullAt oldname buflen with
  | some cnt => (copy newname 0 oldname 0 (cnt + 1), OK)
  | none => (copy newname 0 oldname 0 buflen, SYSERR)

/-- The table of names, {lit}`nametab` up to {lit}`nnames`. -/
structure NameTable where
  nametab : List Nmentry
  room : nametab.length ≤ NNAMES
  ends : ∀ e ∈ nametab, (nullAt e.nprefix NM_PRELEN).isSome ∧ (nullAt e.nreplace NM_REPLLEN).isSome
  devices : ∀ e ∈ nametab, ¬isbaddev e.ndevice

/-- {lit}`naminit` starts with the empty table. -/
def NameTable.empty : NameTable where
  nametab := []
  room := Nat.zero_le NNAMES
  ends := fun _ he => nomatch he
  devices := fun _ he => nomatch he

/-- The entry that {lit}`mount` writes; the arrays of an unused entry are null. -/
def newEntry (pre rep : Nat → UInt8) (psiz rsiz : Nat) (device : Int) : Nmentry where
  nprefix := copy (fun _ => 0) 0 pre 0 psiz
  nreplace := copy (fun _ => 0) 0 rep 0 rsiz
  ndevice := device

/-- The table with another entry behind the others. -/
def NameTable.add (T : NameTable) (e : Nmentry) (hroom : T.nametab.length < NNAMES)
    (hends : (nullAt e.nprefix NM_PRELEN).isSome ∧ (nullAt e.nreplace NM_REPLLEN).isSome)
    (hdevice : ¬isbaddev e.ndevice) : NameTable where
  nametab := T.nametab ++ [e]
  room := List.length_append.trans_le hroom
  ends := List.forall_mem_append.mpr ⟨T.ends, List.forall_mem_singleton.mpr hends⟩
  devices := List.forall_mem_append.mpr ⟨T.devices, List.forall_mem_singleton.mpr hdevice⟩

/-- Add an entry to the table. -/
def mount (T : NameTable) (pre rep : Nat → UInt8) (device : Int) : NameTable × Int :=
  match hp : nullAt pre NM_PRELEN, hr : nullAt rep NM_REPLLEN with
  | some psiz, some rsiz =>
      if hbad : isbaddev device ∨ NNAMES ≤ T.nametab.length then (T, SYSERR)
      else
        (T.add (newEntry pre rep (psiz + 1) (rsiz + 1) device)
          (Nat.lt_of_not_le fun h => hbad (Or.inr h))
          ⟨Option.isSome_of_eq_some (nullAt_copy hp), Option.isSome_of_eq_some (nullAt_copy hr)⟩
          fun h => hbad (Or.inl h), OK)
  | _, _ => (T, SYSERR)

/-- Where the loop of {lit}`namrepl` stops that compares a prefix to a name: at the end of
the prefix or at a byte that differs. -/
def comparePrefix (pptr optr : Nat → UInt8) : Option Nat :=
  (List.range NM_PRELEN).find? fun plen => pptr plen = 0 ∨ pptr plen ≠ optr plen

/-- Use the name table to perform prefix substitution. -/
def namrepl (name newname : Nat → UInt8) : List Nmentry → (Nat → UInt8) × Int
  | [] => (newname, SYSERR)
  | namptr :: nametab =>
      match (comparePrefix namptr.nprefix name).filter fun plen => namptr.nprefix plen = 0 with
      | none => namrepl name newname nametab
      | some plen =>
          -- The length of the name is kept in a character.
          let olen : Int := namlen name NM_MAXLEN % 256
          let rlen := namlen namptr.nreplace NM_MAXLEN - 1
          let remain := olen - plen
          if rlen + remain > NM_MAXLEN then (newname, SYSERR)
          else
            (copy (copy newname 0 namptr.nreplace 0 rlen.toNat) rlen.toNat name plen remain.toNat,
              namptr.ndevice)

/-- The loop of {lit}`nammap`, with the rounds that are left. -/
def nammapLoop (nametab : List Nmentry) (tmpname : Nat → UInt8) (namdev : Int) :
    Nat → (Nat → UInt8) → (Nat → UInt8) × Int
  | 0, newname => (newname, SYSERR)
  | iter + 1, newname =>
      let r := namrepl tmpname newname nametab
      if r.2 ≠ namdev then r else nammapLoop nametab tmpname namdev iter r.1

/-- Using namespace, map name to new name and new device.  What {lit}`tmpname` holds is
on the stack before. -/
def nammap (nametab : List Nmentry) (tmpname name newname : Nat → UInt8) (namdev : Int) :
    (Nat → UInt8) × Int :=
  let t := namcpy tmpname name NM_MAXLEN
  if t.2 = SYSERR then (newname, SYSERR)
  else nammapLoop nametab t.1 namdev nametab.length newname

/-!
## The initial namespace

{lit}`naminit.c`.  The number of devices is the length of the device table, and the device
numbers that {lit}`conf.h` gives to three of the devices are those of the configuration.
-/

/-- What is used of {lit}`struct dentry`. -/
structure Dentry where
  dvnum : Int
  dvname : CString

/-- The device numbers that are used by name.  {lit}`naminit` takes {lit}`SYSERR` for one that
is not defined. -/
structure Config where
  NULLDEV : Int
  RFILESYS : Int
  LFILESYS : Int

/-- {lit}`mount` on a system with the given number of devices, on the used entries of the
table. -/
def mountEntry (ndevs : Nat) (nametab : List Nmentry) (pre rep : Nat → UInt8) (device : Int) :
    List Nmentry × Int :=
  match nullAt pre NM_PRELEN, nullAt rep NM_REPLLEN with
  | some psiz, some rsiz =>
      if (device < 0 ∨ (ndevs : Int) ≤ device) ∨ NNAMES ≤ nametab.length then (nametab, SYSERR)
      else (nametab ++ [newEntry pre rep (psiz + 1) (rsiz + 1) device], OK)
  | _, _ => (nametab, SYSERR)

/-- A character in lower case. -/
def lowerCase (ch : UInt8) : UInt8 := if 65 ≤ ch ∧ ch ≤ 90 then ch + 32 else ch

/-- The loop that appends a device name to {lit}`len` bytes of {lit}`tmpstr`: the buffer then,
and the length that is tested. -/
def appendName : List UInt8 → Nat → (Nat → UInt8) → (Nat → UInt8) × Nat
  | [], len, tmpstr =>
      if len + 1 < NM_MAXLEN then (upd tmpstr len 0, len + 1) else (tmpstr, len + 1)
  | ch :: nptr, len, tmpstr =>
      if len + 1 < NM_MAXLEN then appendName nptr (len + 1) (upd tmpstr len (lowerCase ch))
      else (tmpstr, len + 1)

/-- The characters of {lit}`"/dev/"`. -/
def devprefix : CString where
  chars := [47, 100, 101, 118, 47]
  nonnull := by decide

/-- The loop over the devices. -/
def mountDevices (ndevs : Nat) : List Dentry → (Nat → UInt8) → List Nmentry → List Nmentry
  | [], _, nametab => nametab
  | devptr :: devtab, tmpstr, nametab =>
      let t := appendName devptr.dvname.chars 5 (copy tmpstr 0 devprefix.mem 0 6)
      if NM_MAXLEN < t.2 then mountDevices ndevs devtab t.1 nametab
      else
        mountDevices ndevs devtab t.1
          (mountEntry ndevs nametab t.1 (fun _ => 0) devptr.dvnum).1

/-- What is mounted: a prefix, its replacement and a device. -/
structure Registration where
  pre : List UInt8
  rep : List UInt8
  device : Int
  deriving DecidableEq

/-- The other prefixes. -/
def fixedPrefixes (C : Config) : List Registration :=
  [{ pre := [47, 100, 101, 118, 47, 110, 117, 108, 108], rep := [], device := C.NULLDEV },
   { pre := [47, 114, 101, 109, 111, 116, 101, 47], rep := [114, 101, 109, 111, 116, 101, 58],
     device := C.RFILESYS },
   { pre := [47, 108, 111, 99, 97, 108, 47], rep := [], device := C.LFILESYS },
   { pre := [47, 100, 101, 118, 47], rep := [], device := SYSERR },
   { pre := [126, 47], rep := [], device := C.LFILESYS },
   { pre := [47], rep := [114, 111, 111, 116, 58], device := C.RFILESYS },
   { pre := [], rep := [], device := C.LFILESYS }]

/-- The calls of {lit}`mount` for some prefixes. -/
def mountAll (ndevs : Nat) : List Registration → List Nmentry → List Nmentry
  | [], nametab => nametab
  | r :: regs, nametab =>
      mountAll ndevs regs
        (mountEntry ndevs nametab (fun i => r.pre.getD i 0) (fun i => r.rep.getD i 0) r.device).1

/-- Initialize the syntactic namespace.  What {lit}`tmpstr` holds is on the stack before. -/
def naminit (devtab : List Dentry) (C : Config) (tmpstr : Nat → UInt8) : List Nmentry :=
  mountAll devtab.length (fixedPrefixes C) (mountDevices devtab.length devtab tmpstr [])

/-- With the devices of the configuration {lit}`mountEntry` is {lit}`mount`. -/
theorem mount_eq (T : NameTable) (pre rep : Nat → UInt8) (device : Int) :
    ((mount T pre rep device).1.nametab, (mount T pre rep device).2) =
      mountEntry 24 T.nametab pre rep device := by
  generalize hm : mount T pre rep device = m
  unfold mount at hm
  unfold mountEntry
  split at hm
  · rename_i psiz rsiz hp hr
    rw [hp, hr]
    split at hm
    · rename_i hbad
      subst hm
      exact (if_pos hbad).symm
    · rename_i hgood
      subst hm
      exact (if_neg hgood).symm
  · rename_i hno
    subst hm
    cases hp : nullAt pre NM_PRELEN with
    | none => rfl
    | some psiz =>
        cases hr : nullAt rep NM_REPLLEN with
        | none => rfl
        | some rsiz => exact (hno psiz rsiz hp hr).elim

end Nam
end BbbXinu
