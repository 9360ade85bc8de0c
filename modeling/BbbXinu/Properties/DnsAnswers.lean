import BbbXinu.Invariant.PacketBytes
import BbbXinu.Properties.DomainNames
import BbbXinu.Properties.Numerals

/-!
# The answer to a question

A response has questions and answers one behind the other.  {lit}`dns_geta` finds the answer
for a name unless one with a longer name comes before it, or a name goes through a pointer
that an earlier one has cleared.
-/

namespace BbbXinu
namespace Net

open CStrings Labels

/-!
## Well-formed responses
-/

/-- The type, the length of the data and the address of the answer whose name has been read. -/
def rrType (p : Packet) (r : Reading) : UInt16 := htons (get16 p r.next)

def rrLength (p : Packet) (r : Reading) : Nat := (htons (get16 p (r.next + 8))).toNat

def rrAddress (p : Packet) (r : Reading) : UInt32 := get32 p (r.next + 10)

/-- A number of questions from one place to another. -/
inductive Questions (p : Packet) : Nat → Nat → Nat → Prop where
  | nil {pos : Nat} : Questions p 0 pos pos
  | cons {n pos pos' : Nat} {r : Reading} (h : ReadsAs p pos r)
      (hrest : Questions p n (r.next + 4) pos') : Questions p (n + 1) pos pos'

/-- A number of answers from a place on. -/
inductive Answers (p : Packet) : Nat → Nat → List Reading → Prop where
  | nil {pos : Nat} : Answers p 0 pos []
  | cons {n pos : Nat} {r : Reading} {rs : List Reading} (h : ReadsAs p pos r)
      (hrest : Answers p n (r.next + 10 + rrLength p r) rs) : Answers p (n + 1) pos (r :: rs)

/-- A well-formed response, with the number of its bytes. -/
structure Response where
  packet : Packet
  size : Nat
  start : Nat
  answers : List Reading
  questions : Questions packet (htons (get16 packet dns_qdcount)).toNat dns_data start
  listed : Answers packet (htons (get16 packet dns_ancount)).toNat start answers
  start_le : start ≤ size
  inside : ∀ r ∈ answers, (∀ i ∈ r.reads, i < size) ∧ r.next + 10 + rrLength packet r ≤ size
  short : ∀ r ∈ answers, r.name.length ≤ 255
  addresses : ∀ r ∈ answers, rrType packet r = DNS_QT_A → rrLength packet r = 4

/-- An answer with an address for the name. -/
def Wanted (p : Packet) (dname : List UInt8) (r : Reading) : Prop :=
  rrType p r = DNS_QT_A ∧ r.name = dname ++ [DOT]

instance (p : Packet) (dname : List UInt8) (r : Reading) : Decidable (Wanted p dname r) :=
  inferInstanceAs (Decidable (_ ∧ _))

/-- The address in the first of some answers that is for the name. -/
def firstAddress (p : Packet) (dname : List UInt8) (rs : List Reading) : UInt32 :=
  match rs.find? fun r => Wanted p dname r with
  | none => UInt32.ofInt SYSERR
  | some r => rrAddress p r

/-- {lit}`dns_geta` returns the address for the name. -/
def Finds (m : Response) (dname : List UInt8) : Prop :=
  ∃ fuel, dnsGeta fuel dname m.packet = some (firstAddress m.packet dname m.answers)

/-- The bytes behind the name of an answer that are looked at: its type, if the name begins as
the one that is looked for, and its address or the length of its data. -/
def Looks (p : Packet) (dname : List UInt8) (r : Reading) (i : Nat) : Prop :=
  (dname <+: r.name ∧ r.next ≤ i ∧ i < r.next + 2) ∨
    if Wanted p dname r then r.next + 10 ≤ i ∧ i < r.next + 14
    else r.next + 8 ≤ i ∧ i < r.next + 10

/-- Up to the answer that is looked for, no byte that is looked at is that of a pointer that has
been cleared, and there is no address for a longer name that begins with the name. -/
def Plain (p : Packet) (dname : List UInt8) (rs : List Reading) : Prop :=
  ∀ before r after, rs = before ++ r :: after → (∀ b ∈ before, ¬Wanted p dname b) →
    (∀ i ∈ r.reads, ∀ b ∈ before, i ∉ b.pointers) ∧
    (∀ i, Looks p dname r i → ∀ b ∈ before ++ [r], i ∉ b.pointers) ∧
    (rrType p r = DNS_QT_A → dname <+: r.name → r.name = dname ++ [DOT])

section

variable {p q : Packet} {dname name : List UInt8} {pos pos' n fuel m : Nat} {r : Reading}
  {rs : List Reading}

/-!
## Comparing names
-/

theorem charOf_injective : Function.Injective fun b : UInt8 => Char.ofNat b.toNat := by
  have hchar : ∀ c : UInt8, (Char.ofNat c.toNat).toNat = c.toNat := fun c => by
    have hc := c.toNat_lt
    have hvalid : c.toNat.isValidChar := Or.inl (by omega)
    unfold Char.ofNat
    rw [dif_pos hvalid]
    rfl
  intro a b h
  have hnat := congrArg Char.toNat h
  dsimp only at hnat
  rw [hchar, hchar] at hnat
  exact UInt8.toNat_inj.mp hnat

theorem charsOf_nonnull (hnull : 0 ∉ dname) : NULLCH ∉ charsOf dname := by
  intro hmem
  rcases List.mem_map.mp hmem with ⟨b, hb, heq⟩
  have hzero : b = 0 := charOf_injective heq
  exact hnull (hzero ▸ hb)

/-- A string without null characters is the beginning of what is before the first one. -/
theorem prefix_cstring {s t : List Char} (ht : NULLCH ∉ t) : t <+: cstring s ↔ t <+: s := by
  constructor
  · exact fun h => h.trans (List.takeWhile_prefix _)
  · rintro ⟨e, rfl⟩
    have hall : ∀ c ∈ t, decide (c ≠ NULLCH) = true :=
      fun c hc => decide_eq_true fun heq => ht (heq ▸ hc)
    unfold cstring
    rw [List.takeWhile_append_of_pos hall]
    exact List.prefix_append _ _

/-- The comparison is one with the beginning of the name. -/
theorem strncmp_charsOf (hnull : 0 ∉ dname) :
    strncmp (charsOf (name ++ [0])) (charsOf dname) dname.length = 0 ↔ dname <+: name := by
  have hnonnull := charsOf_nonnull hnull
  have hself : cstring (charsOf dname) = charsOf dname :=
    List.takeWhile_eq_self_iff.mpr fun c hc => decide_eq_true fun heq => hnonnull (heq ▸ hc)
  have hlen : dname.length = (charsOf dname).length := (List.length_map _).symm
  rw [strncmp_eq_zero, hself, hlen, List.take_length, eq_comm, ← List.prefix_iff_eq_take,
    prefix_cstring hnonnull]
  unfold charsOf
  rw [List.prefix_map_iff_of_injective charOf_injective, List.prefix_concat_iff]
  apply or_iff_right
  rintro rfl
  exact hnull (List.mem_append_right name List.mem_cons_self)

/-!
## Pointers that have been cleared
-/

/-- The pointers of some names. -/
def pointersOf (rs : List Reading) : List Nat := rs.flatMap Reading.pointers

theorem not_mem_pointersOf {i : Nat} :
    i ∉ pointersOf rs ↔ ∀ b ∈ rs, i ∉ b.pointers := by
  unfold pointersOf
  rw [List.mem_flatMap]
  constructor
  · exact fun h b hb hi => h ⟨b, hb, hi⟩
  · rintro h ⟨b, hb, hi⟩
    exact h b hb hi

theorem pointersOf_concat (rs : List Reading) (r : Reading) :
    pointersOf (rs ++ [r]) = pointersOf rs ++ r.pointers := by
  unfold pointersOf
  rw [List.flatMap_append, List.flatMap_singleton]

theorem cleared_append (p : Packet) (ps ps' : List Nat) :
    cleared (cleared p ps) ps' = cleared p (ps ++ ps') := by
  funext i
  unfold cleared
  by_cases h : i ∈ ps
  · rw [if_pos h, and_mask_idem, ite_self, if_pos (List.mem_append_left ps' h)]
  · rw [if_neg h]
    exact if_congr (List.mem_append.trans (or_iff_right h)).symm rfl rfl

/-!
## The walk through a response
-/

theorem skipName_reads (h : ReadsAs p pos r) :
    ∃ k, ∀ fuel ≥ k, skipName p fuel pos = some r.next := by
  induction h with
  | @root pos hlen =>
      refine ⟨1, fun fuel hfuel => ?_⟩
      obtain ⟨m, rfl⟩ := Nat.exists_eq_add_of_le' hfuel
      rw [skipName]
      exact if_pos hlen
  | @label pos r hpos hlen h ih =>
      rcases ih with ⟨k, hk⟩
      refine ⟨k + 1, fun fuel hfuel => ?_⟩
      obtain ⟨m, rfl⟩ := Nat.exists_eq_add_of_le' hfuel
      rw [← Nat.add_assoc, skipName]
      dsimp only
      rw [if_neg hpos, if_neg (Nat.not_lt_of_le hlen), ← Nat.add_assoc]
      exact hk (m + k) (Nat.le_add_left k m)
  | @pointer pos r hlen hown h ih =>
      refine ⟨1, fun fuel hfuel => ?_⟩
      obtain ⟨m, rfl⟩ := Nat.exists_eq_add_of_le' hfuel
      rw [skipName]
      dsimp only
      rw [if_neg (by omega), if_pos hlen]

theorem skipQuestions_reads (h : Questions p n pos pos') :
    ∃ k, ∀ fuel ≥ k, skipQuestions fuel p n pos = some pos' := by
  induction h with
  | nil => exact ⟨0, fun fuel _ => rfl⟩
  | cons h hrest ih =>
      rcases skipName_reads h with ⟨k, hk⟩
      rcases ih with ⟨k', hk'⟩
      refine ⟨max k k', fun fuel hfuel => ?_⟩
      rw [skipQuestions, hk fuel (le_of_max_le_left hfuel), Option.bind_some]
      exact hk' fuel (le_of_max_le_right hfuel)

theorem ReadsAs.next_ge (h : ReadsAs p pos r) : pos ≤ r.next := by
  induction h with
  | root hlen => exact Nat.le_succ _
  | label hpos hlen h ih =>
      dsimp only
      omega
  | pointer hlen hown h ih =>
      dsimp only
      omega

/-!
## What is looked at
-/

/-- The packet after the names of some answers have been read, where it is looked at. -/
def Shows (p q : Packet) (dname : List UInt8) (r : Reading) : Prop :=
  ∀ i, Looks p dname r i → q i = p i

theorem Shows.type (h : Shows p q dname r) (hbegins : dname <+: r.name) :
    get16 q r.next = get16 p r.next :=
  get16_congr (h _ (Or.inl ⟨hbegins, by omega, by omega⟩))
    (h _ (Or.inl ⟨hbegins, by omega, by omega⟩))

theorem Shows.address (h : Shows p q dname r) (hwant : Wanted p dname r) :
    get32 q (r.next + 10) = get32 p (r.next + 10) := by
  apply get32_congr
  intro i hi
  apply h
  refine Or.inr ?_
  rw [if_pos hwant]
  omega

theorem Shows.length (h : Shows p q dname r) (hwant : ¬Wanted p dname r) :
    get16 q (r.next + 8) = get16 p (r.next + 8) := by
  have hlook : ∀ i, r.next + 8 ≤ i ∧ i < r.next + 10 → q i = p i := by
    intro i hi
    apply h
    refine Or.inr ?_
    rwa [if_neg hwant]
  exact get16_congr (hlook _ (by omega)) (hlook _ (by omega))

/-- The test of {lit}`dns_geta` finds an answer if it is wanted, when there is no address for a
longer name. -/
theorem Shows.test_iff (h : Shows p q dname r) (hnull : 0 ∉ dname)
    (hlonger : rrType p r = DNS_QT_A → dname <+: r.name → r.name = dname ++ [DOT]) :
    (strncmp (charsOf (r.name ++ [0])) (charsOf dname) dname.length = 0 ∧
      htons (get16 q r.next) = DNS_QT_A) ↔ Wanted p dname r := by
  constructor
  · rintro ⟨hcompare, htyp⟩
    have hbegins := (strncmp_charsOf hnull).mp hcompare
    rw [h.type hbegins] at htyp
    exact ⟨htyp, hlonger htyp hbegins⟩
  · intro hwant
    have hbegins : dname <+: r.name := by
      rw [hwant.2]
      exact List.prefix_append dname [DOT]
    rw [h.type hbegins]
    exact ⟨(strncmp_charsOf hnull).mpr hbegins, hwant.1⟩

theorem firstAddress_wanted (h : Wanted p dname r) :
    firstAddress p dname (r :: rs) = rrAddress p r := by
  have hfind : (r :: rs).find? (fun r => decide (Wanted p dname r)) = some r :=
    List.find?_cons_of_pos (decide_eq_true h)
  unfold firstAddress
  rw [hfind]

theorem firstAddress_other (h : ¬Wanted p dname r) :
    firstAddress p dname (r :: rs) = firstAddress p dname rs := by
  have hfind : (r :: rs).find? (fun r => decide (Wanted p dname r)) =
      rs.find? fun r => decide (Wanted p dname r) :=
    List.find?_cons_of_neg fun hyes => h (of_decide_eq_true hyes)
  unfold firstAddress
  rw [hfind]

/-- The answers behind some others are searched. -/
theorem searchAnswers_plain (before : List Reading) (hnull : 0 ∉ dname) (h : Answers p n pos rs)
    (hbefore : ∀ b ∈ before, ¬Wanted p dname b) (hplain : Plain p dname (before ++ rs)) :
    ∃ k, ∀ fuel ≥ k, searchAnswers fuel dname n (cleared p (pointersOf before)) pos =
      some (firstAddress p dname rs) := by
  induction h generalizing before with
  | nil => exact ⟨0, fun fuel _ => rfl⟩
  | @cons n pos r rs h hrest ih =>
      rcases hplain before r rs rfl hbefore with ⟨hreads, hlooks, hlonger⟩
      have hname : ∀ i ∈ r.reads, cleared p (pointersOf before) i = p i :=
        fun i hi => cleared_apply (not_mem_pointersOf.mpr (hreads i hi))
      have hthen : cleared (cleared p (pointersOf before)) r.pointers =
          cleared p (pointersOf (before ++ [r])) := by
        rw [cleared_append, pointersOf_concat]
      have hshows : Shows p (cleared p (pointersOf (before ++ [r]))) dname r :=
        fun i hi => cleared_apply (not_mem_pointersOf.mpr (hlooks i hi))
      have hplace : pos + (r.next - pos) = r.next := by
        have hge := h.next_ge
        omega
      rcases dnsGetrname_reads h hname with ⟨k, hk⟩
      by_cases hwant : Wanted p dname r
      · refine ⟨k, fun fuel hfuel => ?_⟩
        rw [searchAnswers, hk fuel hfuel, Option.bind_some]
        dsimp only
        rw [hthen, hplace, hshows.address hwant, if_pos ((hshows.test_iff hnull hlonger).mpr hwant),
          firstAddress_wanted hwant]
        rfl
      · have hmore : ∀ b ∈ before ++ [r], ¬Wanted p dname b := by
          intro b hb
          rcases List.mem_append.mp hb with hb | hb
          · exact hbefore b hb
          · rw [List.mem_singleton.mp hb]
            exact hwant
        have hassoc : before ++ r :: rs = before ++ [r] ++ rs := by simp
        rw [hassoc] at hplain
        rcases ih (before ++ [r]) hmore hplain with ⟨k', hk'⟩
        have hplace' : r.next + 8 + (2 + (htons (get16 p (r.next + 8))).toNat) =
            r.next + 10 + rrLength p r := by
          unfold rrLength
          omega
        refine ⟨max k k', fun fuel hfuel => ?_⟩
        rw [searchAnswers, hk fuel (le_of_max_le_left hfuel), Option.bind_some]
        dsimp only
        rw [hthen, hplace, hshows.length hwant,
          if_neg fun h => hwant ((hshows.test_iff hnull hlonger).mp h), hplace',
          firstAddress_other hwant]
        exact hk' fuel (le_of_max_le_right hfuel)

/-!
## More steps
-/

theorem getrnameLoop_mono {r : Rname} (h : getrnameLoop fuel p pos = some r) :
    getrnameLoop (fuel + 1) p pos = some r := by
  induction fuel generalizing p pos r with
  | zero => cases h
  | succ fuel ih =>
      rw [getrnameLoop] at h ⊢
      by_cases hzero : (p pos).toNat = 0
      · rw [if_pos hzero] at h ⊢
        exact h
      · rw [if_neg hzero] at h ⊢
        by_cases hlen : (p pos).toNat ≤ 63
        · rw [if_pos hlen] at h ⊢
          rcases Option.map_eq_some_iff.mp h with ⟨r', hr', heq⟩
          rw [ih hr', Option.map_some, heq]
        · rw [if_neg hlen] at h ⊢
          rcases Option.map_eq_some_iff.mp h with ⟨r', hr', heq⟩
          rw [ih hr', Option.map_some, heq]

theorem skipName_mono (h : skipName p fuel pos = some n) : skipName p (fuel + 1) pos = some n := by
  induction fuel generalizing pos with
  | zero => cases h
  | succ fuel ih =>
      rw [skipName] at h ⊢
      by_cases hzero : (p pos).toNat = 0
      · rw [if_pos hzero] at h ⊢
        exact h
      · rw [if_neg hzero] at h ⊢
        by_cases hlen : 63 < (p pos).toNat
        · rw [if_pos hlen] at h ⊢
          exact h
        · rw [if_neg hlen] at h ⊢
          exact ih h

theorem skipQuestions_mono (h : skipQuestions fuel p n pos = some pos') :
    skipQuestions (fuel + 1) p n pos = some pos' := by
  induction n generalizing pos with
  | zero => exact h
  | succ n ih =>
      rcases Option.bind_eq_some_iff.mp h with ⟨d, hd, hrest⟩
      rw [skipQuestions, skipName_mono hd, Option.bind_some]
      exact ih hrest

theorem searchAnswers_mono {a : UInt32} (h : searchAnswers fuel dname n p pos = some a) :
    searchAnswers (fuel + 1) dname n p pos = some a := by
  induction n generalizing p pos with
  | zero => exact h
  | succ n ih =>
      rw [searchAnswers] at h ⊢
      rcases Option.bind_eq_some_iff.mp h with ⟨⟨r, dlen⟩, hr, hrest⟩
      rcases Option.map_eq_some_iff.mp hr with ⟨r', hr', heq⟩
      have hmore : dnsGetrname (fuel + 1) p pos = some (r, dlen) := by
        unfold dnsGetrname
        rw [getrnameLoop_mono hr', Option.map_some, heq]
      rw [hmore, Option.bind_some]
      dsimp only at hrest ⊢
      by_cases hmatch : strncmp (charsOf r.rname) (charsOf dname) dname.length = 0 ∧
          htons (get16 r.packet (pos + dlen)) = DNS_QT_A
      · rw [if_pos hmatch] at hrest ⊢
        exact hrest
      · rw [if_neg hmatch] at hrest ⊢
        exact ih hrest

/-- With more steps there is the same result. -/
theorem dnsGeta_mono {a : UInt32} (h : dnsGeta m dname p = some a) (hle : m ≤ fuel) :
    dnsGeta fuel dname p = some a := by
  induction hle with
  | refl => exact h
  | step _ ih =>
      rcases Option.bind_eq_some_iff.mp ih with ⟨d, hd, hrest⟩
      unfold dnsGeta
      rw [skipQuestions_mono hd, Option.bind_some]
      exact searchAnswers_mono hrest

/-- There is one result at most. -/
theorem dnsGeta_unique {a b : UInt32} (ha : dnsGeta m dname p = some a)
    (hb : dnsGeta n dname p = some b) : a = b := by
  have hmax := dnsGeta_mono ha (Nat.le_max_left m n)
  rw [dnsGeta_mono hb (Nat.le_max_right m n)] at hmax
  exact (Option.some.inj hmax).symm

end

/-- {lit}`dns_geta` finds the address in a plain response. -/
theorem dnsGeta_finds (m : Response) (dname : CString)
    (h : Plain m.packet dname.chars m.answers) : Finds m dname.chars := by
  rcases skipQuestions_reads m.questions with ⟨k, hk⟩
  rcases searchAnswers_plain [] dname.nonnull m.listed (fun b hb => by cases hb) h
    with ⟨k', hk'⟩
  refine ⟨max k k', ?_⟩
  unfold dnsGeta
  rw [hk _ (Nat.le_max_left k k'), Option.bind_some]
  exact hk' _ (Nat.le_max_right k k')

/-- The answer for {lit}`"ab"`. -/
def answerAb : Packet := fun i =>
  [0, 0, 0, 0, 0, 0, 0, 1, 0, 0, 0, 0, 2, 97, 98, 0, 0, 1, 0, 1, 0, 0, 0, 0, 0, 4, 1, 2, 3, 4].getD i 0

def responseAb : Response where
  packet := answerAb
  size := 30
  start := 12
  answers := [{ name := [97, 98, 46], next := 16, reads := [12, 13, 14, 15], pointers := [] }]
  questions := Questions.nil
  listed := Answers.cons (ReadsAs.label (p := answerAb) (by decide) (by decide)
    (ReadsAs.root (p := answerAb) (by decide))) Answers.nil
  start_le := by decide
  inside := by decide
  short := by decide
  addresses := by decide

/-- Names without pointers are not changed. -/
theorem plain_of_pointers {p : Packet} {dname : List UInt8} {rs : List Reading}
    (hpointers : ∀ r ∈ rs, r.pointers = [])
    (hlonger : ∀ r ∈ rs, rrType p r = DNS_QT_A → dname <+: r.name → r.name = dname ++ [DOT]) :
    Plain p dname rs := by
  rintro before r after rfl _
  have hnone : ∀ i, ∀ b ∈ before ++ [r], i ∉ b.pointers := by
    intro i b hb
    have hmem : b ∈ before ++ r :: after := by
      rcases List.mem_append.mp hb with hb | hb
      · exact List.mem_append_left _ hb
      · rw [List.mem_singleton.mp hb]
        exact List.mem_append_right before List.mem_cons_self
    rw [hpointers b hmem]
    exact List.not_mem_nil
  exact ⟨fun i _ b hb => hnone i b (List.mem_append_left _ hb), fun i _ => hnone i,
    hlonger r (List.mem_append_right before List.mem_cons_self)⟩

theorem dnsGeta_finds_ab : Finds responseAb [97, 98] := by
  have hplain : Plain answerAb [97, 98] responseAb.answers :=
    plain_of_pointers (by decide) (by decide)
  exact dnsGeta_finds responseAb { chars := [97, 98], nonnull := by decide } hplain

/-- The first answer is for {lit}`"b"` and has a name {lit}`"a.b"` in its data.  The other two
have that name. -/
def sharedPointer : Packet := fun i =>
  [0, 0, 0, 0, 0, 0, 0, 3, 0, 0, 0, 0,
   1, 98, 0, 0, 5, 0, 1, 0, 0, 0, 0, 0, 4, 1, 97, 192, 12,
   192, 25, 0, 5, 0, 1, 0, 0, 0, 0, 0, 0,
   192, 25, 0, 1, 0, 1, 0, 0, 0, 0, 0, 4, 1, 2, 3, 4].getD i 0

theorem sharedPointer_owner : ReadsAs sharedPointer 12
    { name := [98, 46], next := 15, reads := [12, 13, 14], pointers := [] } :=
  @ReadsAs.label sharedPointer 12 _ (by decide) (by decide)
    (@ReadsAs.root sharedPointer 14 (by decide))

theorem sharedPointer_name : ReadsAs sharedPointer 25
    { name := [97, 46, 98, 46], next := 29, reads := [25, 26, 27, 28, 12, 13, 14],
      pointers := [27] } :=
  @ReadsAs.label sharedPointer 25 _ (by decide) (by decide)
    (@ReadsAs.pointer sharedPointer 27 _ (by decide) (by decide) sharedPointer_owner)

def responseShared : Response where
  packet := sharedPointer
  size := 57
  start := 12
  answers := [
    { name := [98, 46], next := 15, reads := [12, 13, 14], pointers := [] },
    { name := [97, 46, 98, 46], next := 31, reads := [29, 30, 25, 26, 27, 28, 12, 13, 14],
      pointers := [29, 27] },
    { name := [97, 46, 98, 46], next := 43, reads := [41, 42, 25, 26, 27, 28, 12, 13, 14],
      pointers := [41, 27] }]
  questions := Questions.nil
  listed := Answers.cons sharedPointer_owner
    (@Answers.cons sharedPointer 1 29 _ _
      (@ReadsAs.pointer sharedPointer 29 _ (by decide) (by decide) sharedPointer_name)
      (@Answers.cons sharedPointer 0 41 _ _
        (@ReadsAs.pointer sharedPointer 41 _ (by decide) (by decide) sharedPointer_name)
        Answers.nil))
  start_le := by decide
  inside := by decide
  short := by decide
  addresses := by decide

/-- The address for {lit}`"ab"` is returned for {lit}`"a"`, and the one for {lit}`"a.b"` is not
found through a pointer that has been followed before. -/
theorem dnsGeta_misses : ¬Finds responseAb [97] ∧ ¬Finds responseShared [97, 46, 98] := by
  constructor
  · rintro ⟨fuel, hfuel⟩
    have hother : dnsGeta 3 [97] responseAb.packet = some 0x04030201 := by decide
    exact absurd (dnsGeta_unique hfuel hother) (by decide)
  · rintro ⟨fuel, hfuel⟩
    have hother : dnsGeta 6 [97, 46, 98] responseShared.packet = some (UInt32.ofInt SYSERR) := by
      decide
    exact absurd (dnsGeta_unique hfuel hother) (by decide)

end Net
end BbbXinu
