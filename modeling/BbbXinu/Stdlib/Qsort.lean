import BbbXinu.Kernel.State

/-!
# Sorting

The library's {lit}`qsort` sorts an array in place.  A pointer is an address; the loop that
parts an array is written over the operations on two elements, which are passed to it.

The pointers passed to these operations are recorded.
-/

namespace BbbXinu
namespace Sorting

/-- {lit}`char` in memory. -/
abbrev Bytes := Int → UInt8

/-- What is done with two or three elements in memory, {lit}`qscmp`, {lit}`qsexc` and
{lit}`qstexc`. -/
structure QsOps (M : Type) where
  qscmp : M → Int → Int → Int
  qsexc : M → Int → Int → M
  qstexc : M → Int → Int → Int → M

/-- The variables of {lit}`qs1`, the memory and the pointers used so far. -/
structure Qs (M : Type) where
  i : Int
  j : Int
  lp : Int
  hp : Int
  mem : M
  touched : List Int

/-- Where {lit}`qs1` is: at the start of its {lit}`for` or at {lit}`loop`. -/
inductive Label where
  | top
  | loop
  deriving DecidableEq, Repr

/-!
## The element operations
-/

/-- The {lit}`n` iterations of {lit}`qsexc`. -/
def qsexcLoop : Nat → Bytes → Int → Int → Bytes
  | 0, m, _, _ => m
  | n + 1, m, ri, rj =>
      let c := m ri
      let m := upd m ri (m rj)
      let m := upd m rj c
      qsexcLoop n m (ri + 1) (rj + 1)

/-- The {lit}`n` iterations of {lit}`qstexc`. -/
def qstexcLoop : Nat → Bytes → Int → Int → Int → Bytes
  | 0, m, _, _, _ => m
  | n + 1, m, ri, rj, rk =>
      let c := m ri
      let m := upd m ri (m rk)
      let m := upd m rk (m rj)
      let m := upd m rj c
      qstexcLoop n m (ri + 1) (rj + 1) (rk + 1)

/-- The bytes of the element at a pointer. -/
def element (es : Nat) (m : Bytes) (p : Int) : Fin es → UInt8 :=
  fun t => m (p + (t.val : Int))

/-- The operations on elements of {lit}`es` bytes.  The comparison function looks at the bytes
of both elements. -/
def byteOps (es : Nat) (fc : (Fin es → UInt8) → (Fin es → UInt8) → Int) : QsOps Bytes where
  qscmp m i j := fc (element es m i) (element es m j)
  qsexc m i j := qsexcLoop es m i j
  qstexc m i j k := qstexcLoop es m i j k

/-!
## The partition
-/

section

variable {M : Type} (ops : QsOps M) (es : Int)

/-- Pointers were passed to an operation. -/
def Qs.touch (s : Qs M) (ps : List Int) : Qs M :=
  { s with touched := s.touched ++ ps }

/-- A call of {lit}`qsexc`. -/
def Qs.exc (s : Qs M) (i j : Int) : Qs M :=
  { s with mem := ops.qsexc s.mem i j, touched := s.touched ++ [i, j] }

/-- A call of {lit}`qstexc`. -/
def Qs.texc (s : Qs M) (i j k : Int) : Qs M :=
  { s with mem := ops.qstexc s.mem i j k, touched := s.touched ++ [i, j, k] }

/-- From the start of the {lit}`for` to the next jump. -/
def topStep (s : Qs M) : Label × Qs M :=
  if s.i < s.lp then
    let c := ops.qscmp s.mem s.i s.lp
    let t := s.touch [s.i, s.lp]
    if c = 0 then
      let lp := s.lp - es
      (.top, { t.exc ops s.i lp with lp := lp })
    else if c < 0 then
      (.top, { t with i := s.i + es })
    else
      (.loop, t)
  else
    (.loop, s)

/-- From {lit}`loop` to the next jump; nothing when the array has been parted. -/
def loopStep (s : Qs M) : Option (Label × Qs M) :=
  if s.hp < s.j then
    let c := ops.qscmp s.mem s.hp s.j
    let t := s.touch [s.hp, s.j]
    if c = 0 then
      let hp := s.hp + es
      some (.loop, { t.exc ops hp s.j with hp := hp })
    else if 0 < c then
      if s.i = s.lp then
        let hp := s.hp + es
        let lp := s.lp + es
        some (.loop, { t.texc ops s.i hp s.j with hp := hp, lp := lp, i := lp })
      else
        some (.top, { t.exc ops s.i s.j with j := s.j - es, i := s.i + es })
    else
      some (.loop, { t with j := s.j - es })
  else if s.i = s.lp then
    none
  else
    let lp := s.lp - es
    let hp := s.hp - es
    some (.top, { s.texc ops s.j lp s.i with lp := lp, hp := hp, j := hp })

/-- The code from a label to the next jump. -/
def step : Label → Qs M → Option (Label × Qs M)
  | .top, s => some (topStep ops es s)
  | .loop, s => loopStep ops es s

/-- The {lit}`for` of {lit}`qs1`. -/
def partition : Nat → Label → Qs M → Option (Qs M)
  | 0, _, _ => none
  | fuel + 1, label, s =>
      match step ops es label s with
      | none => some s
      | some (label, s) => partition fuel label s

/-!
## The sort
-/

/-- Sort the elements from {lit}`a` up to {lit}`l`. -/
def qs1 : Nat → Int → Int → M → List Int → Option (M × List Int)
  | 0, _, _, _, _ => none
  | fuel + 1, a, l, m, touched =>
      let n := uint32 (l - a)
      if n ≤ uint32 es then
        some (m, touched)
      else
        let n := uint32 (es * ((n : Int) / (2 * es)))
        let lp := a + (n : Int)
        match partition ops es fuel .top
            { i := a, j := l - es, lp := lp, hp := lp, mem := m, touched := touched } with
        | none => none
        | some s =>
            if l - s.hp ≤ s.lp - a then
              match qs1 fuel (s.hp + es) l s.mem s.touched with
              | none => none
              | some (m, touched) => qs1 fuel a s.lp m touched
            else
              match qs1 fuel a s.lp s.mem s.touched with
              | none => none
              | some (m, touched) => qs1 fuel (s.hp + es) l m touched

end

/-- {lit}`qsort`. -/
def qsort (fuel : Nat) (a : Int) (n : Nat) (es : Nat)
    (fc : (Fin es → UInt8) → (Fin es → UInt8) → Int) (m : Bytes) : Option (Bytes × List Int) :=
  qs1 (byteOps es fc) es fuel a (a + (uint32 (n * es) : Int)) m []

end Sorting
end BbbXinu
