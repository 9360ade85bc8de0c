import BbbXinu.Lib.CStrings
import BbbXinu.Lib.Layouts
import BbbXinu.Net.Dns
import Mathlib.Data.Finset.Card
import Mathlib.Data.Finset.Range
import Mathlib.Logic.Relation
import Mathlib.Tactic.Linarith

/-!
# Domain names in messages

A name in a message is a list of labels that ends with the empty one or goes on at another
place.  {lit}`dns_getrname` reads every such name, and the one that {lit}`dns_bldq` writes is
the one that it was given.
-/

namespace BbbXinu
namespace Net

open CStrings Labels

/-!
## Names
-/

/-- A name as it stands in a message: its labels with a dot behind each, the place behind it,
the bytes that it consists of, and those of them that are the first bytes of pointers. -/
structure Reading where
  name : List UInt8
  next : Nat
  reads : List Nat
  pointers : List Nat

/-- The bytes of a label. -/
def labelAt (p : Packet) (pos llen : Nat) : List UInt8 :=
  (List.range llen).map fun i => p (pos + 1 + i)

/-- There is a name at a place of a message.  No name contains a pointer to itself. -/
inductive ReadsAs (p : Packet) : Nat → Reading → Prop where
  | root {pos : Nat} (hlen : (p pos).toNat = 0) :
      ReadsAs p pos { name := [], next := pos + 1, reads := [pos], pointers := [] }
  | label {pos : Nat} {r : Reading} (hpos : (p pos).toNat ≠ 0) (hlen : (p pos).toNat ≤ 63)
      (h : ReadsAs p (pos + 1 + (p pos).toNat) r) :
      ReadsAs p pos { r with
        name := labelAt p pos (p pos).toNat ++ DOT :: r.name
        reads := (List.range (1 + (p pos).toNat)).map (pos + ·) ++ r.reads }
  | pointer {pos : Nat} {r : Reading} (hlen : 63 < (p pos).toNat) (hown : pos ∉ r.reads)
      (h : ReadsAs p (pointee (unmarked p pos) pos) r) :
      ReadsAs p pos { r with
        next := pos + 2
        reads := pos :: (pos + 1) :: r.reads
        pointers := pos :: r.pointers }

/-- A message in which the first bytes of some pointers are cleared. -/
def cleared (p : Packet) (pointers : List Nat) : Packet :=
  fun i => if i ∈ pointers then p i &&& 0x3f else p i

section

variable {p q : Packet} {pos fuel : Nat} {r : Reading} {l name : List UInt8}
  {ls : List (List UInt8)} {qlen : Nat}

theorem cleared_nil (p : Packet) : cleared p [] = p := rfl

theorem cleared_apply {ps : List Nat} {i : Nat} (h : i ∉ ps) : cleared p ps i = p i := if_neg h

theorem and_mask_idem (b : UInt8) : b &&& 0x3f &&& 0x3f = b &&& 0x3f := by
  rw [UInt8.and_assoc]
  rfl

/-- One pointer is cleared, and then some more. -/
theorem cleared_cons (p : Packet) (pos : Nat) (ps : List Nat) :
    cleared (unmarked p pos) ps = cleared p (pos :: ps) := by
  funext i
  unfold cleared unmarked upd
  by_cases hpos : i = pos
  · subst hpos
    rw [if_pos (rfl : i = i), if_pos List.mem_cons_self, and_mask_idem, ite_self]
  · rw [if_neg hpos]
    exact if_congr (List.mem_cons.trans (or_iff_right hpos)).symm rfl rfl

/-- What a pointer points to depends on its two bytes. -/
theorem pointee_congr (h0 : q pos = p pos) (h1 : q (pos + 1) = p (pos + 1)) :
    pointee (unmarked q pos) pos = pointee (unmarked p pos) pos := by
  unfold pointee unmarked
  rw [upd_self, upd_self, upd_of_ne (Nat.succ_ne_self pos), upd_of_ne (Nat.succ_ne_self pos), h0, h1]

/-- {lit}`dns_getrname` reads every name, with enough steps, and clears its pointers. -/
theorem getrnameLoop_reads (h : ReadsAs p pos r) (hq : ∀ i ∈ r.reads, q i = p i) :
    ∃ k, ∀ fuel ≥ k, getrnameLoop fuel q pos =
      some { rname := r.name ++ [0], packet := cleared q r.pointers, reads := r.reads,
             son := r.next } := by
  induction h generalizing q with
  | @root pos hlen =>
      refine ⟨1, fun fuel hfuel => ?_⟩
      obtain ⟨m, rfl⟩ := Nat.exists_eq_add_of_le' hfuel
      rw [getrnameLoop, hq pos List.mem_cons_self]
      dsimp only
      rw [if_pos hlen]
      rfl
  | @label pos r hpos hlen h ih =>
      have hrest : ∀ i ∈ r.reads, q i = p i := fun i hi => hq i (List.mem_append_right _ hi)
      have hbyte : ∀ i ≤ (p pos).toNat, q (pos + i) = p (pos + i) := fun i hi =>
        hq (pos + i) (List.mem_append_left _
          (List.mem_map.mpr ⟨i, List.mem_range.mpr (by omega), rfl⟩))
      rcases ih hrest with ⟨k, hk⟩
      refine ⟨k + 1, fun fuel hfuel => ?_⟩
      obtain ⟨m, rfl⟩ := Nat.exists_eq_add_of_le' hfuel
      have hlabel : (List.range (p pos).toNat).map (fun i => q (pos + 1 + i)) =
          labelAt p pos (p pos).toNat := by
        apply List.map_congr_left
        intro i hi
        rw [Nat.add_assoc, hbyte (1 + i) (by have := List.mem_range.mp hi; omega)]
      have h0 : q pos = p pos := hbyte 0 (Nat.zero_le _)
      rw [← Nat.add_assoc, getrnameLoop, h0]
      dsimp only
      rw [if_neg hpos, if_pos hlen, hk (m + k) (Nat.le_add_left k m),
        Option.map_some, hlabel, List.append_assoc, List.cons_append]
  | @pointer pos r hlen hown h ih =>
      have h0 : q pos = p pos := hq pos List.mem_cons_self
      have h1 : q (pos + 1) = p (pos + 1) :=
        hq (pos + 1) (List.mem_cons_of_mem _ List.mem_cons_self)
      have hrest : ∀ i ∈ r.reads, unmarked q pos i = p i := by
        intro i hi
        have hne : i ≠ pos := fun heq => hown (heq ▸ hi)
        unfold unmarked
        rw [upd_of_ne hne]
        exact hq i (List.mem_cons_of_mem _ (List.mem_cons_of_mem _ hi))
      rcases ih hrest with ⟨k, hk⟩
      refine ⟨k + 1, fun fuel hfuel => ?_⟩
      obtain ⟨m, rfl⟩ := Nat.exists_eq_add_of_le' hfuel
      rw [← Nat.add_assoc, getrnameLoop, h0]
      dsimp only
      rw [if_neg (by omega), if_neg (by omega), pointee_congr h0 h1,
        hk (m + k) (Nat.le_add_left k m), Option.map_some, cleared_cons]

theorem dnsGetrname_reads (h : ReadsAs p pos r) (hq : ∀ i ∈ r.reads, q i = p i) :
    ∃ k, ∀ fuel ≥ k, dnsGetrname fuel q pos =
      some ({ rname := r.name ++ [0], packet := cleared q r.pointers, reads := r.reads,
              son := r.next }, r.next - pos) := by
  rcases getrnameLoop_reads h hq with ⟨k, hk⟩
  refine ⟨k, fun fuel hfuel => ?_⟩
  unfold dnsGetrname
  rw [hk fuel hfuel, Option.map_some]

/-!
## The name in a question
-/

theorem modify_length (done : List UInt8) (b : UInt8) (cur : List UInt8) :
    (done ++ b :: cur).modify done.length (· + 1) = done ++ (b + 1) :: cur := by
  induction done with
  | nil => rfl
  | cons d done ih => rw [List.cons_append, List.length_cons, List.modify_succ_cons, ih]; rfl

/-- The characters of a label are copied, and counted where its length is kept. -/
theorem bldqLoop_label (rest done : List UInt8) (n : UInt8) (cur : List UInt8) (hdot : DOT ∉ l)
    (hroom : qlen + l.length ≤ 512) :
    bldqLoop (l ++ rest) (done ++ n :: cur) done.length qlen =
      bldqLoop rest (done ++ (n + UInt8.ofNat l.length) :: (cur ++ l)) done.length
        (qlen + l.length) := by
  induction l generalizing n cur qlen with
  | nil =>
      have hzero : n + UInt8.ofNat 0 = n := UInt8.add_zero n
      rw [List.append_nil, List.length_nil, hzero]
      rfl
  | cons c l ih =>
      rw [List.length_cons] at hroom
      have hc : c ≠ DOT := fun h => hdot (h ▸ List.mem_cons_self)
      have hl : DOT ∉ l := fun h => hdot (List.mem_cons_of_mem c h)
      have hcount : n + 1 + UInt8.ofNat l.length = n + UInt8.ofNat (l.length + 1) := by
        rw [UInt8.ofNat_add, UInt8.add_comm (UInt8.ofNat l.length), UInt8.add_assoc]
        rfl
      rw [List.cons_append, bldqLoop, if_neg (by omega), if_pos hc, List.append_assoc,
        List.cons_append, modify_length, ih _ _ hl (by omega), hcount, List.length_cons,
        List.append_assoc, List.singleton_append, Nat.add_assoc, Nat.add_comm 1]

/-- The loop writes the labels of a name, each behind its length. -/
theorem bldqLoop_joined (done : List UInt8) (qlen : Nat) (hne : ls ≠ []) (hdot : ∀ l ∈ ls, DOT ∉ l)
    (hroom : qlen + (joined DOT ls).length ≤ 512) :
    bldqLoop (joined DOT ls) (done ++ [0]) done.length qlen =
      some (done ++ framed ls, qlen + (joined DOT ls).length) := by
  induction ls generalizing done qlen with
  | nil => exact absurd rfl hne
  | cons l ls ih =>
      have hl := hdot l List.mem_cons_self
      by_cases hls : ls = []
      · subst hls
        rw [joined_singleton] at hroom ⊢
        have hloop := bldqLoop_label [] done 0 [] hl hroom
        rw [List.append_nil] at hloop
        have hnil : framed [] = [] := rfl
        rw [hloop, bldqLoop, UInt8.zero_add, framed_cons, List.nil_append, hnil, List.append_nil]
      · rw [joined_cons DOT l hls, List.length_append, List.length_cons] at hroom
        have hnext := ih (done ++ UInt8.ofNat l.length :: l) (qlen + l.length + 1) hls
          (fun l' hl' => hdot l' (List.mem_cons_of_mem l hl')) (by omega)
        rw [joined_cons DOT l hls, bldqLoop_label _ _ _ _ hl (by omega), UInt8.zero_add,
          List.nil_append, bldqLoop, if_neg (by omega), if_neg (not_not.mpr rfl), hnext,
          framed_cons, List.append_assoc, List.cons_append, List.length_append, List.length_cons]
        congr 2
        omega

/-- Labels, each behind its length, and the empty one are a name. -/
theorem readsAs_framed (hls : ∀ l ∈ ls, 1 ≤ l.length ∧ l.length ≤ 63)
    (h : Holds p pos (framed ls ++ [0])) :
    ∃ reads, ReadsAs p pos
      { name := closed DOT ls, next := pos + (framed ls).length + 1, reads, pointers := [] } := by
  induction ls generalizing pos with
  | nil =>
      have hzero : (p pos).toNat = 0 := by rw [h.1]; rfl
      exact ⟨[pos], .root hzero⟩
  | cons l ls ih =>
      rw [framed_cons, List.cons_append, List.append_assoc] at h
      rcases h with ⟨hlen, hrest⟩
      rcases holds_append.mp hrest with ⟨hlabel, htail⟩
      have hl := hls l List.mem_cons_self
      have hcount : (p pos).toNat = l.length := by
        rw [hlen, UInt8.toNat_ofNat', Nat.mod_eq_of_lt (by omega)]
      rcases ih (fun l' hl' => hls l' (List.mem_cons_of_mem l hl')) htail with ⟨reads, hread⟩
      have hname : labelAt p pos (p pos).toNat = l := by
        rw [hcount]
        exact hlabel.map_range
      have hnext : pos + (framed (l :: ls)).length + 1 =
          pos + 1 + l.length + (framed ls).length + 1 := by
        rw [framed_cons, List.length_cons, List.length_append]
        omega
      rw [← hcount] at hread
      have hwhole := ReadsAs.label (by omega) (by omega) hread
      rw [hname] at hwhole
      rw [hnext, closed_cons, ← hcount]
      exact ⟨_, hwhole⟩

end

/-- A name of labels with dots between them. -/
structure DomainName where
  labels : List (List UInt8)
  nonempty : labels ≠ []
  valid : ∀ l ∈ labels, 1 ≤ l.length ∧ l.length ≤ 63 ∧ DOT ∉ l ∧ 0 ∉ l
  short : (joined DOT labels).length ≤ 254

/-- Its characters. -/
def DomainName.chars (d : DomainName) : List UInt8 := joined DOT d.labels

/-- Wherever the question is stored, {lit}`dns_getrname` reads the name and a dot. -/
theorem dnsGetrname_dnsBldq (d : DomainName) :
    ∃ data, dnsBldq d.chars = some (data, d.chars.length + 6) ∧
      ∀ (p : Packet) (pos : Nat), ∃ k, ∀ fuel ≥ k, ∃ r,
        dnsGetrname fuel (stored p pos data) pos = some (r, d.chars.length + 2) ∧
          r.rname = d.chars ++ [DOT, 0] ∧ r.packet = stored p pos data := by
  have hroom : 1 + (joined DOT d.labels).length ≤ 512 := by
    have hshort := d.short
    omega
  have hloop := bldqLoop_joined [] 1 d.nonempty (fun l hl => (d.valid l hl).2.2.1) hroom
  have hframed : (framed d.labels).length = d.chars.length + 1 := by
    rw [length_framed DOT, ← joined_append d.nonempty, List.length_append, List.length_singleton]
    rfl
  refine ⟨framed d.labels ++ [0] ++ netBytes DNS_QT_A ++ netBytes DNS_QC_IN, ?_, fun p pos => ?_⟩
  · unfold dnsBldq DomainName.chars
    rw [List.nil_append, List.length_nil] at hloop
    rw [hloop, Option.map_some, List.nil_append]
    congr 2
    omega
  · have hholds := holds_stored p pos
      (framed d.labels ++ [0] ++ netBytes DNS_QT_A ++ netBytes DNS_QC_IN)
    have hname := (holds_append.mp (holds_append.mp hholds).1).1
    rcases readsAs_framed (fun l hl => ⟨(d.valid l hl).1, (d.valid l hl).2.1⟩) hname
      with ⟨reads, hread⟩
    rcases dnsGetrname_reads hread (fun i _ => rfl) with ⟨k, hk⟩
    refine ⟨k, fun fuel hfuel => ?_⟩
    have hlen : pos + (framed d.labels).length + 1 - pos = d.chars.length + 2 := by omega
    have hrun := hk fuel hfuel
    dsimp only at hrun
    rw [hlen] at hrun
    refine ⟨_, hrun, ?_, cleared_nil _⟩
    dsimp only
    rw [← joined_append d.nonempty, List.append_assoc]
    rfl

example : dnsBldq [97, 46, 98] = some ([1, 97, 1, 98, 0, 0, 1, 0, 1], 9) := by decide

/-!
## Reading any bytes as a name

A name is read label by label, and from pointer to pointer.  Each pointer that is followed is
cleared, so reading ends if it never leaves the packet.
-/

/-- Where reading has got to: the message as it is then, the place in it, and the number of
characters so far. -/
structure NamePos where
  packet : Packet
  pos : Nat
  chars : Nat

/-- Reading gets on by a label or by a pointer. -/
inductive NameStep : NamePos → NamePos → Prop where
  | label {p : Packet} {pos chars : Nat} (hpos : (p pos).toNat ≠ 0) (hlen : (p pos).toNat ≤ 63) :
      NameStep ⟨p, pos, chars⟩ ⟨p, pos + 1 + (p pos).toNat, chars + (p pos).toNat + 1⟩
  | pointer {p : Packet} {pos chars : Nat} (hlen : 63 < (p pos).toNat) :
      NameStep ⟨p, pos, chars⟩ ⟨unmarked p pos, pointee (unmarked p pos) pos, chars⟩

/-- The bytes behind the first one of a label or a pointer. -/
def itemLength (b : UInt8) : Nat := if b.toNat ≤ 63 then b.toNat else 1

/-- The label or pointer lies in a packet of {lit}`n` bytes, and the characters before it leave
room for a null byte. -/
def NamePos.Inside (n : Nat) (s : NamePos) : Prop :=
  s.pos + itemLength (s.packet s.pos) < n ∧ s.chars < 256

/-- All labels and pointers of the name at a place lie in the packet, and the labels with their
dots have no more than 255 characters. -/
def NameInside (n : Nat) (p : Packet) (pos : Nat) : Prop :=
  ∀ s, Relation.ReflTransGen NameStep ⟨p, pos, 0⟩ s → s.Inside n

/-- {lit}`dns_getrname` returns, and before that it has read bytes of the packet only and stored
at most 256 bytes. -/
def NameSafe (n : Nat) (p : Packet) (pos : Nat) : Prop :=
  ∃ fuel r dlen, dnsGetrname fuel p pos = some (r, dlen) ∧ (∀ i ∈ r.reads, i < n) ∧
    r.rname.length ≤ 256

/-!
## The calls
-/

/-- The messages and places with which {lit}`dns_geta` calls {lit}`dns_getrname`. -/
def answerCalls (fuel : Nat) (dname : List UInt8) : Nat → Packet → Nat → List (Packet × Nat)
  | 0, _, _ => []
  | i + 1, p, dptr => (p, dptr) ::
      match dnsGetrname fuel p dptr with
      | none => []
      | some (r, dlen) =>
          let d := dptr + dlen
          if strncmp (charsOf r.rname) (charsOf dname) dname.length = 0 ∧
              htons (get16 r.packet d) = DNS_QT_A then []
          else
            answerCalls fuel dname i r.packet
              (d + 8 + (2 + (htons (get16 r.packet (d + 8))).toNat))

def getaCalls (fuel : Nat) (dname : List UInt8) (p : Packet) : List (Packet × Nat) :=
  match skipQuestions fuel p (htons (get16 p dns_qdcount)).toNat dns_data with
  | none => []
  | some dptr => answerCalls fuel dname (htons (get16 p dns_ancount)).toNat p dptr

section

variable {p q : Packet} {n pos chars fuel : Nat} {s t : NamePos} {r : Rname}

/-!
## How long reading goes on
-/

/-- The first bytes of pointers in a packet. -/
def marks (n : Nat) (p : Packet) : Finset Nat := (Finset.range n).filter fun i => 63 < (p i).toNat

theorem mask_le (b : UInt8) : (b &&& 0x3f).toNat ≤ 63 := by
  rw [UInt8.toNat_and]
  exact Nat.and_le_right

/-- There is one pointer less when one has been followed. -/
theorem marks_unmarked (hpos : pos < n) (hlen : 63 < (p pos).toNat) :
    (marks n (unmarked p pos)).card < (marks n p).card := by
  apply Finset.card_lt_card
  refine ⟨fun i hi => ?_, fun hsub => ?_⟩
  · rcases Finset.mem_filter.mp hi with ⟨hrange, hmark⟩
    refine Finset.mem_filter.mpr ⟨hrange, ?_⟩
    by_cases heq : i = pos
    · rw [heq]
      exact hlen
    · unfold unmarked at hmark
      rw [upd_of_ne heq] at hmark
      exact hmark
  · have hmem := hsub (Finset.mem_filter.mpr ⟨Finset.mem_range.mpr hpos, hlen⟩)
    have hmark := (Finset.mem_filter.mp hmem).2
    unfold unmarked at hmark
    rw [upd_self] at hmark
    exact absurd (mask_le (p pos)) (Nat.not_le_of_lt hmark)

/-- A bound on the labels and pointers that are still to be read. -/
def stepsLeft (n : Nat) (p : Packet) (pos : Nat) : Nat := (marks n p).card * (n + 1) + (n - pos)

theorem stepsLeft_label (hpos : pos < n) (k : Nat) :
    stepsLeft n p (pos + 1 + k) < stepsLeft n p pos := by
  unfold stepsLeft
  omega

theorem stepsLeft_pointer (hpos : pos < n) (hlen : 63 < (p pos).toNat) (k : Nat) :
    stepsLeft n (unmarked p pos) k < stepsLeft n p pos := by
  have hmul := Nat.mul_le_mul_right (n + 1) (Nat.succ_le_of_lt (marks_unmarked hpos hlen))
  rw [Nat.succ_mul] at hmul
  unfold stepsLeft
  omega

/-!
## Safety
-/

theorem itemLength_label (h : (p pos).toNat ≤ 63) : itemLength (p pos) = (p pos).toNat := if_pos h

theorem itemLength_pointer (h : 63 < (p pos).toNat) : itemLength (p pos) = 1 :=
  if_neg (Nat.not_le_of_lt h)

/-- Reading that stays inside ends, reads nothing outside and stores what there is room for. -/
theorem getrnameLoop_inside (hfuel : stepsLeft n p pos < fuel)
    (h : ∀ s, Relation.ReflTransGen NameStep ⟨p, pos, chars⟩ s → s.Inside n) :
    ∃ r, getrnameLoop fuel p pos = some r ∧ (∀ i ∈ r.reads, i < n) ∧
      chars + r.rname.length ≤ 256 := by
  induction fuel generalizing p pos chars with
  | zero => exact absurd hfuel (Nat.not_lt_zero _)
  | succ fuel ih =>
      have hhere := h _ .refl
      rcases hhere with ⟨hitem, hchars⟩
      dsimp only at hitem hchars
      have hpos : pos < n := by omega
      rw [getrnameLoop]
      by_cases hzero : (p pos).toNat = 0
      · rw [if_pos hzero]
        refine ⟨_, rfl, fun i hi => ?_, hchars⟩
        rw [List.mem_singleton.mp hi]
        exact hpos
      · rw [if_neg hzero]
        by_cases hlen : (p pos).toNat ≤ 63
        · rw [itemLength_label hlen] at hitem
          have hless := stepsLeft_label (p := p) hpos (p pos).toNat
          rcases ih (by omega) fun s hs => h s (.head (.label hzero hlen) hs)
            with ⟨r, hr, hreads, hroom⟩
          rw [if_pos hlen, hr, Option.map_some]
          refine ⟨_, rfl, fun i hi => ?_, ?_⟩
          · rcases List.mem_append.mp hi with hlabel | hrest
            · rcases List.mem_map.mp hlabel with ⟨j, hj, rfl⟩
              have hj := List.mem_range.mp hj
              omega
            · exact hreads i hrest
          · dsimp only
            rw [List.length_append, List.length_map, List.length_range, List.length_cons]
            omega
        · have hmark := Nat.lt_of_not_le hlen
          rw [itemLength_pointer hmark] at hitem
          have hless := stepsLeft_pointer hpos hmark (pointee (unmarked p pos) pos)
          rcases ih (by omega) fun s hs => h s (.head (.pointer hmark) hs)
            with ⟨r, hr, hreads, hroom⟩
          rw [if_neg hlen, hr, Option.map_some]
          refine ⟨_, rfl, fun i hi => ?_, hroom⟩
          rcases List.mem_cons.mp hi with rfl | hi
          · exact hpos
          · rcases List.mem_cons.mp hi with rfl | hi
            · exact hitem
            · exact hreads i hi

theorem getrnameLoop_rname_pos (hrun : getrnameLoop fuel p pos = some r) : 0 < r.rname.length := by
  induction fuel generalizing p pos r with
  | zero => cases hrun
  | succ fuel ih =>
      rw [getrnameLoop] at hrun
      by_cases hzero : (p pos).toNat = 0
      · rw [if_pos hzero] at hrun
        cases hrun
        exact Nat.one_pos
      · rw [if_neg hzero] at hrun
        by_cases hlen : (p pos).toNat ≤ 63
        · rw [if_pos hlen] at hrun
          rcases Option.map_eq_some_iff.mp hrun with ⟨r', hr', rfl⟩
          dsimp only
          rw [List.length_append, List.length_cons]
          omega
        · rw [if_neg hlen] at hrun
          rcases Option.map_eq_some_iff.mp hrun with ⟨r', hr', rfl⟩
          have hpos := ih hr'
          exact hpos

/-- What is read without leaving the packet and the buffer stays inside. -/
theorem inside_of_getrnameLoop (hrun : getrnameLoop fuel p pos = some r)
    (hreads : ∀ i ∈ r.reads, i < n) (hroom : chars + r.rname.length ≤ 256)
    (hs : Relation.ReflTransGen NameStep ⟨p, pos, chars⟩ s) : s.Inside n := by
  induction fuel generalizing p pos chars r with
  | zero => cases hrun
  | succ fuel ih =>
      rw [getrnameLoop] at hrun
      by_cases hzero : (p pos).toNat = 0
      · rw [if_pos hzero] at hrun
        cases hrun
        rcases hs.cases_head with rfl | ⟨t, hstep, _⟩
        · refine ⟨?_, hroom⟩
          have hpos := hreads pos List.mem_cons_self
          dsimp only
          rw [itemLength_label (by omega), hzero]
          exact hpos
        · cases hstep with
          | label hpos hlen => exact absurd hzero hpos
          | pointer hlen => omega
      · rw [if_neg hzero] at hrun
        by_cases hlen : (p pos).toNat ≤ 63
        · rw [if_pos hlen] at hrun
          rcases Option.map_eq_some_iff.mp hrun with ⟨r', hr', rfl⟩
          dsimp only at hreads hroom
          rw [List.length_append, List.length_map, List.length_range, List.length_cons] at hroom
          rcases hs.cases_head with rfl | ⟨t, hstep, htail⟩
          · refine ⟨?_, by dsimp only; omega⟩
            have hlast := hreads (pos + (p pos).toNat) (List.mem_append_left _
              (List.mem_map.mpr ⟨_, List.mem_range.mpr (by omega), rfl⟩))
            dsimp only
            rw [itemLength_label hlen]
            exact hlast
          · cases hstep with
            | label hpos _ =>
                exact ih hr' (fun i hi => hreads i (List.mem_append_right _ hi)) (by omega) htail
            | pointer hmark => exact absurd hlen (Nat.not_le_of_lt hmark)
        · rw [if_neg hlen] at hrun
          rcases Option.map_eq_some_iff.mp hrun with ⟨r', hr', rfl⟩
          dsimp only at hreads hroom
          rcases hs.cases_head with rfl | ⟨t, hstep, htail⟩
          · have hsecond := hreads (pos + 1) (List.mem_cons_of_mem _ List.mem_cons_self)
            have hpos := getrnameLoop_rname_pos hr'
            refine ⟨?_, by dsimp only; omega⟩
            dsimp only
            rw [itemLength_pointer (Nat.lt_of_not_le hlen)]
            exact hsecond
          · cases hstep with
            | label _ hle => exact absurd hle hlen
            | pointer _ =>
                exact ih hr' (fun i hi => hreads i
                  (List.mem_cons_of_mem _ (List.mem_cons_of_mem _ hi))) hroom htail

theorem NameSafe.inside (h : NameSafe n p pos) : NameInside n p pos := by
  rcases h with ⟨fuel, r, dlen, hrun, hreads, hroom⟩
  rcases Option.map_eq_some_iff.mp hrun with ⟨r', hr', heq⟩
  cases heq
  exact fun s hs => inside_of_getrnameLoop hr' hreads (by omega) hs

end

/-- A call of {lit}`dns_getrname` is safe if and only if no label or pointer of the name leaves
the packet, and the name the buffer. -/
theorem nameSafe_iff (n : Nat) (p : Packet) (pos : Nat) : NameSafe n p pos ↔ NameInside n p pos := by
  constructor
  · exact NameSafe.inside
  · intro h
    rcases getrnameLoop_inside (Nat.lt_succ_self _) h with ⟨r, hr, hreads, hroom⟩
    refine ⟨stepsLeft n p pos + 1, r, r.son - pos, ?_, hreads, by omega⟩
    unfold dnsGetrname
    rw [hr, Option.map_some]

/-- A response with one answer, of which the name is a pointer to offset 16383. -/
def farPointer : Packet := fun i => [0, 0, 0, 0, 0, 0, 0, 1, 0, 0, 0, 0, 255, 255].getD i 0

theorem getrname_reads_outside :
    ¬ ∀ (dname : CString) (p : Packet) (fuel : Nat), ∀ c ∈ getaCalls fuel dname.chars p,
      NameSafe 512 c.1 c.2 := by
  intro hall
  have hcall : (farPointer, 12) ∈ getaCalls 1 [97] farPointer := List.mem_cons_self
  have hinside := (hall { chars := [97], nonnull := by decide } farPointer 1 _ hcall).inside
  have hstep : NameStep ⟨farPointer, 12, 0⟩ ⟨unmarked farPointer 12, 16383, 0⟩ :=
    NameStep.pointer (p := farPointer) (by decide)
  have hitem := (hinside _ (.single hstep)).1
  dsimp only at hitem
  omega

end Net
end BbbXinu
