import BbbXinu.Shell.State

/-!
# Formatted output

{lit}`doprnt.c`.  A {lit}`long` has 32 bits, and the arguments are words of which the
formatter takes one after the other; there is always another one on the stack.  The array
{lit}`string` is the list of its bytes.  What is written behind its end goes into the bytes
there, so that the list gets longer.

The routines for digits and the layout of a field are the same in {lit}`fdoprnt.c`.
-/

namespace BbbXinu
namespace Stdio

def MAXSTR : Int := 80

/-- The arguments that are left. -/
abbrev VaList : Type := Nat → UInt32

/-- {lit}`va_arg(ap, long)` and {lit}`va_arg(ap, int)`. -/
def VaList.arg (ap : VaList) : Int := int32 (ap 0).toNat

def VaList.next (ap : VaList) : VaList := fun n => ap (n + 1)

/-- The cast to a character. -/
def char (x : Int) : Char := Char.ofNat (x % 256).toNat

/-!
## Digits
-/

/-- The loop that puts digits into {lit}`temp`, from {lit}`temp[1]` on. -/
def digitLoop (digit : Int → Char) (next : Int → Int) : Nat → Int → List Char
  | 0, _ => []
  | n + 1, num => digit num :: digitLoop digit next n (next num)

/-- The two loops that copy the digits from the end of {lit}`temp`, and its null character. -/
def copyDigits (temp : List Char) : List Char :=
  let digits := temp.reverse.dropWhile fun c => c = '0'
  (if digits = [] then temp.take 1 else digits) ++ [NULLCH]

/-- {lit}`num % 10` and {lit}`num / 10` have the sign of {lit}`num`. -/
def prtl10 (num : Int) : List Char :=
  copyDigits (digitLoop (fun num => char (num.tmod 10 + 48)) (fun num => num.tdiv 10) 10 num)

/-- {lit}`temp[11] &= '3'`. -/
def maskLast (temp : List Char) : List Char :=
  temp.modify 10 fun c => Char.ofNat (c.toNat &&& '3'.toNat)

def prtl8 (num : Int) : List Char :=
  copyDigits (maskLast
    (digitLoop (fun num => char (num % 8 + 48)) (fun num => num >>> (3 : Nat)) 11 num))

/-- The routines for hexadecimal digits, with their table. -/
def prtHex (table : List Char) (num : Int) : List Char :=
  copyDigits
    (digitLoop (fun num => table.getD (num % 16).toNat NULLCH) (fun num => num >>> (4 : Nat)) 8 num)

def prtl16 (num : Int) : List Char :=
  prtHex ['0', '1', '2', '3', '4', '5', '6', '7', '8', '9', 'a', 'b', 'c', 'd', 'e', 'f'] num

def prtX16 (num : Int) : List Char :=
  prtHex ['0', '1', '2', '3', '4', '5', '6', '7', '8', '9', 'A', 'B', 'C', 'D', 'E', 'F'] num

def prtl2 (num : Int) : List Char :=
  copyDigits
    (digitLoop (fun num => if num.tmod 2 = 0 then '0' else '1') (fun num => num >>> (1 : Nat)) 32
      num)

/-- The loop that makes an argument positive.  It takes three turns at most. -/
def positiveLoop : Nat → Int → Nat → Int × Nat
  | 0, larg, digit1 => (larg, digit1)
  | fuel + 1, larg, digit1 =>
      if larg < 0 then positiveLoop fuel (int32 (larg - 1000000000)) (digit1 + 1)
      else (larg, digit1)

/-- {lit}`str[0] += digit1`. -/
def addFirst (str : List Char) (digit1 : Nat) : List Char :=
  str.modify 0 fun c => char (c.toNat + digit1)

/-- What the case of {lit}`u` puts into the string. -/
def prtUnsigned (larg : Int) : List Char :=
  let r := positiveLoop 3 larg 0
  addFirst (prtl10 r.1) r.2

/-!
## Fields
-/

/-- What comes between the percent sign and the format character. -/
structure Spec where
  leftjust : Bool
  fill : Char
  fmin : Int
  fmax : Int
  fmt : List Char
  ap : VaList

def isDigit (c : Char) : Prop := '0' ≤ c ∧ c ≤ '9'

instance (c : Char) : Decidable (isDigit c) := inferInstanceAs (Decidable (_ ∧ _))

/-- The loop over the digits of a width or a precision, with the format behind them. -/
def number : Int → List Char → Int × List Char
  | n, [] => (n, [])
  | n, c :: fmt =>
      if isDigit c then number (int32 (n * 10 + c.toNat - '0'.toNat)) fmt
      else (n, c :: fmt)

/-- A width or a precision, which may be an argument. -/
def fieldNumber (fmt : List Char) (ap : VaList) : Int × List Char × VaList :=
  if fmt.headD NULLCH = '*' then (ap.arg, fmt.tail, ap.next)
  else
    let r := number 0 fmt
    (r.1, r.2, ap)

/-- Whether a character comes next, with the format behind it. -/
def skip (c : Char) (fmt : List Char) : Bool × List Char :=
  if fmt.headD NULLCH = c then (true, fmt.tail) else (false, fmt)

def readSpec (fmt : List Char) (ap : VaList) : Spec :=
  let minus := skip '-' fmt
  let zero := skip '0' minus.2
  let w := fieldNumber zero.2 ap
  let dot := skip '.' w.2.1
  let p := if dot.1 then fieldNumber dot.2 w.2.2 else (0, dot.2, w.2.2)
  { leftjust := minus.1
    fill := if zero.1 then '0' else ' '
    fmin := w.1
    fmax := p.1
    fmt := p.2.1
    ap := p.2.2 }

/-- What a case of the switch leaves in the variables: {lit}`str`, {lit}`string`,
{lit}`sign`, {lit}`fill`, {lit}`fmax` and the arguments. -/
structure Field where
  str : List Char
  string : List Char
  sign : Bool
  fill : Char
  fmax : Int
  ap : VaList

/-- The bytes that are written over the beginning of an array. -/
def overlay (new old : List Char) : List Char := new ++ old.drop new.length

/-- A case that puts bytes into the array. -/
def Field.inString (bytes string : List Char) (sign : Bool) (fill : Char) (fmax : Int)
    (ap : VaList) : Field :=
  { str := overlay bytes string, string := overlay bytes string, sign, fill, fmax, ap }

/-- A width or a precision that is too large, or negative, counts for none. -/
def checkBound (n : Int) : Int := if MAXSTR < n ∨ n < 0 then 0 else n

/-- The length of the string, and the number of fill characters. -/
def measure (length : Nat) (fmin fmax : Int) (sign : Bool) : Nat × Int :=
  let fmin := checkBound fmin
  let fmax := checkBound fmax
  let shown := if fmax ≠ 0 ∧ fmax < length then fmax.toNat else length
  let leading := if fmin ≠ 0 then fmin - shown else 0
  let leading := if (fmax ≠ 0 ∨ fmin ≠ 0) ∧ sign then leading - 1 else leading
  (shown, leading)

/-- The end of the loop's body, with the function that puts out a character. -/
def showField {α : Type} (func : Char → α) (leftjust : Bool) (fmin : Int) (k : Field) : List α :=
  let str := cstring k.str
  let m := measure str.length fmin k.fmax k.sign
  (if k.sign ∧ k.fill = '0' then [func '-'] else []) ++
    (if leftjust then [] else List.replicate m.2.toNat (func k.fill)) ++
    (if k.sign ∧ k.fill = ' ' then [func '-'] else []) ++
    (str.take m.1).map func ++
    (if leftjust then List.replicate m.2.toNat (func k.fill) else [])

/-!
## The formatter
-/

/-- The case of {lit}`s`. -/
def Field.ofString (strAt : UInt32 → List Char) (string : List Char) (fmax : Int) (ap : VaList) :
    Field where
  str := if ap 0 = 0 then ['(', 'n', 'u', 'l', 'l', ')'] else strAt (ap 0)
  string := string
  sign := false
  fill := ' '
  fmax := fmax
  ap := ap.next

/-- The case of {lit}`d`. -/
def Field.ofSigned (string : List Char) (fill : Char) (fmax : Int) (ap : VaList) : Field :=
  Field.inString (prtl10 (if ap.arg < 0 then int32 (-ap.arg) else ap.arg)) string (ap.arg < 0) fill
    fmax ap.next

/-- A case for a number without a sign. -/
def Field.ofNumber (prt : Int → List Char) (string : List Char) (fill : Char) (ap : VaList) :
    Field :=
  Field.inString (prt ap.arg) string false fill 0 ap.next

/-- The cases of {lit}`H` and {lit}`h`, with two numbers. -/
def Field.ofTwo (prt : Int → List Char) (string : List Char) (fill : Char) (ap : VaList) : Field :=
  let first := overlay (prt ap.arg) string
  Field.inString (first.take 8 ++ prt ap.next.arg) first false fill 0 ap.next.next

/-- The switch of {lit}`_doprnt`, with the characters that it puts out. -/
def doprntCase (strAt : UInt32 → List Char) (f : Char) (s : Spec) (string : List Char) :
    List Char × Field :=
  match f with
  | 'c' => ([], Field.inString [char s.ap.arg, NULLCH] string false ' ' 0 s.ap.next)
  | 's' => ([], Field.ofString strAt string s.fmax s.ap)
  | 'd' => ([], Field.ofSigned string s.fill s.fmax s.ap)
  | 'u' => ([], Field.ofNumber prtUnsigned string s.fill s.ap)
  | 'o' => ([], Field.ofNumber prtl8 string s.fill s.ap)
  | 'X' => ([], Field.ofNumber prtX16 string s.fill s.ap)
  | 'x' => ([], Field.ofNumber prtl16 string s.fill s.ap)
  | 'H' => ([], Field.ofTwo prtX16 string s.fill s.ap)
  | 'h' => ([], Field.ofTwo prtl16 string s.fill s.ap)
  | 'b' => ([], Field.ofNumber prtl2 string s.fill s.ap)
  | f => ([f], { str := string, string, sign := false, fill := s.fill, fmax := s.fmax, ap := s.ap })

theorem number_length (n : Int) (fmt : List Char) : (number n fmt).2.length ≤ fmt.length := by
  induction fmt generalizing n with
  | nil => exact le_refl _
  | cons c fmt ih =>
      unfold number
      split
      · exact (ih _).trans (Nat.le_succ _)
      · exact le_refl _

theorem fieldNumber_length (fmt : List Char) (ap : VaList) :
    (fieldNumber fmt ap).2.1.length ≤ fmt.length := by
  unfold fieldNumber
  split
  · rw [List.length_tail]
    exact Nat.sub_le _ _
  · exact number_length 0 fmt

theorem skip_length (c : Char) (fmt : List Char) : (skip c fmt).2.length ≤ fmt.length := by
  unfold skip
  split
  · rw [List.length_tail]
    exact Nat.sub_le _ _
  · exact le_refl _

theorem readSpec_length (fmt : List Char) (ap : VaList) :
    (readSpec fmt ap).fmt.length ≤ fmt.length := by
  have hwidth : (fieldNumber (skip '0' (skip '-' fmt).2).2 ap).2.1.length ≤ fmt.length :=
    (fieldNumber_length _ _).trans ((skip_length _ _).trans (skip_length _ _))
  unfold readSpec
  dsimp only
  split
  · exact (fieldNumber_length _ _).trans ((skip_length _ _).trans hwidth)
  · exact (skip_length _ _).trans hwidth

/-- The characters that {lit}`_doprnt` puts out, and what is in {lit}`string` in the end. -/
def doprnt (strAt : UInt32 → List Char) : List Char → VaList → List Char → List Char × List Char
  | [], _, string => ([], string)
  | c :: fmt, ap, string =>
      if c ≠ '%' then
        if c = NULLCH then ([], string)
        else
          let r := doprnt strAt fmt ap string
          (c :: r.1, r.2)
      else if fmt.headD NULLCH = '%' then
        let r := doprnt strAt fmt.tail ap string
        ('%' :: r.1, r.2)
      else
        let s := readSpec fmt ap
        let f := s.fmt.headD NULLCH
        if f = NULLCH then (['%'], string)
        else
          let k := doprntCase strAt f s string
          let r := doprnt strAt s.fmt.tail k.2.ap k.2.string
          (k.1 ++ showField id s.leftjust s.fmin k.2 ++ r.1, r.2)
termination_by fmt => fmt.length
decreasing_by
  · exact Nat.lt_succ_self _
  · rw [List.length_tail]
    exact Nat.lt_succ_of_le (Nat.sub_le _ _)
  · rw [List.length_tail]
    exact Nat.lt_succ_of_le ((Nat.sub_le _ _).trans (readSpec_length _ _))

/-!
## Formatted output for a device or a string

{lit}`fdoprnt.c`, and {lit}`sprintf.c`, which uses it.  The function that puts out a
character has a first argument of its own.
-/

variable {α : Type}

/-- The switch of {lit}`_fdoprnt`, with the characters that it puts out. -/
def fdoprntCase (strAt : UInt32 → List Char) (f : Char) (s : Spec) (string : List Char) :
    List Char × Field :=
  match f with
  | 'c' => ([], Field.inString [char s.ap.arg, NULLCH] string false ' ' 0 s.ap.next)
  | 's' => ([], Field.ofString strAt string s.fmax s.ap)
  | 'd' => ([], Field.ofSigned string s.fill s.fmax s.ap)
  | 'u' => ([], Field.ofNumber prtUnsigned string s.fill s.ap)
  | 'o' => ([], Field.ofNumber prtl8 string s.fill s.ap)
  | 'X' => ([], Field.ofNumber prtX16 string s.fill s.ap)
  | 'x' => ([], Field.ofNumber prtl16 string s.fill s.ap)
  | 'b' => ([], Field.ofNumber prtl2 string s.fill s.ap)
  | f => ([f], { str := string, string, sign := false, fill := s.fill, fmax := s.fmax, ap := s.ap })

/-- The calls of the function by {lit}`_fdoprnt`, and what is in {lit}`string` in the end. -/
def fdoprnt (strAt : UInt32 → List Char) (farg : α) :
    List Char → VaList → List Char → List (α × Char) × List Char
  | [], _, string => ([], string)
  | c :: fmt, ap, string =>
      if c ≠ '%' then
        if c = NULLCH then ([], string)
        else
          let r := fdoprnt strAt farg fmt ap string
          ((farg, c) :: r.1, r.2)
      else if fmt.headD NULLCH = '%' then
        let r := fdoprnt strAt farg fmt.tail ap string
        ((farg, '%') :: r.1, r.2)
      else
        let s := readSpec fmt ap
        let f := s.fmt.headD NULLCH
        if f = NULLCH then ([(farg, '%')], string)
        else
          let k := fdoprntCase strAt f s string
          let r := fdoprnt strAt farg s.fmt.tail k.2.ap k.2.string
          (k.1.map (farg, ·) ++ showField (farg, ·) s.leftjust s.fmin k.2 ++ r.1, r.2)
termination_by fmt => fmt.length
decreasing_by
  · exact Nat.lt_succ_self _
  · rw [List.length_tail]
    exact Nat.lt_succ_of_le (Nat.sub_le _ _)
  · rw [List.length_tail]
    exact Nat.lt_succ_of_le ((Nat.sub_le _ _).trans (readSpec_length _ _))

end Stdio
end BbbXinu
