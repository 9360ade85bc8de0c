import BbbXinu.Properties.PrintedNumbers

/-!
# Formatted output as a function of its inputs

Every conversion but that of a string reads the array {lit}`string` of the formatter in the
end.  A format letter that is unknown puts nothing into it, and a long binary numeral leaves
its end.
-/

namespace BbbXinu
namespace Stdio

variable {α : Type}

/-!
## What a format asks for
-/

/-- The letters of the switch. -/
def letters : List Char := ['c', 's', 'd', 'u', 'o', 'x', 'X', 'b']

/-- A character that is put out as it is, or a conversion with what precedes its letter. -/
inductive Item where
  | literal (c : Char)
  | conv (f : Char) (s : Spec)

/-- The arguments that a conversion leaves. -/
def argsAfter (f : Char) (ap : VaList) : VaList := if f ∈ letters then ap.next else ap

/-- A format with its arguments.  A conversion that the end of the format cuts off is a percent
sign. -/
def items : List Char → VaList → List Item
  | [], _ => []
  | c :: fmt, ap =>
      if c ≠ '%' then
        if c = NULLCH then [] else .literal c :: items fmt ap
      else if fmt.headD NULLCH = '%' then .literal '%' :: items fmt.tail ap
      else
        let s := readSpec fmt ap
        let f := s.fmt.headD NULLCH
        if f = NULLCH then [.literal '%']
        else .conv f { s with fmt := [] } :: items s.fmt.tail (argsAfter f s.ap)
termination_by fmt => fmt.length
decreasing_by
  · exact Nat.lt_succ_self _
  · rw [List.length_tail]
    exact Nat.lt_succ_of_le (Nat.sub_le _ _)
  · rw [List.length_tail]
    exact Nat.lt_succ_of_le ((Nat.sub_le _ _).trans (readSpec_length _ _))

/-- What is put out for an item, and what is then in the array. -/
def putItem (strAt : UInt32 → List Char) (farg : α) : Item → List Char → List (α × Char) × List Char
  | .literal c, string => ([(farg, c)], string)
  | .conv f s, string =>
      let k := fdoprntCase strAt f s string
      (k.1.map (farg, ·) ++ showField (farg, ·) s.leftjust s.fmin k.2, k.2.string)

def putItems (strAt : UInt32 → List Char) (farg : α) :
    List Item → List Char → List (α × Char) × List Char
  | [], string => ([], string)
  | i :: l, string =>
      let p := putItem strAt farg i string
      let r := putItems strAt farg l p.2
      (p.1 ++ r.1, r.2)

/-- The contents of the array whenever it is read for its null character. -/
def arraysRead (strAt : UInt32 → List Char) : List Item → List Char → List (List Char)
  | [], _ => []
  | .literal _ :: l, string => arraysRead strAt l string
  | .conv f s :: l, string =>
      let k := (fdoprntCase strAt f s string).2
      if f = 's' then arraysRead strAt l k.string else k.str :: arraysRead strAt l k.string

section

variable {strAt strAt' : UInt32 → List Char} {farg : α} {fmt string string' : List Char}
  {ap : VaList} {f : Char} {s : Spec} {l : List Item}

theorem fdoprntCase_unknown (h : f ∉ letters) : fdoprntCase strAt f s string =
    ([f], { str := string, string, sign := false, fill := s.fill, fmax := s.fmax, ap := s.ap }) := by
  simp only [letters, List.mem_cons, List.not_mem_nil, or_false, not_or] at h
  obtain ⟨h₁, h₂, h₃, h₄, h₅, h₆, h₇, h₈⟩ := h
  unfold fdoprntCase
  split
  all_goals first | rfl | contradiction

theorem fdoprntCase_ap : (fdoprntCase strAt f s string).2.ap = argsAfter f s.ap := by
  unfold argsAfter
  by_cases h : f ∈ letters
  · rw [if_pos h]
    simp only [letters, List.mem_cons, List.not_mem_nil, or_false] at h
    rcases h with rfl | rfl | rfl | rfl | rfl | rfl | rfl | rfl <;> rfl
  · rw [if_neg h, fdoprntCase_unknown h]

theorem fdoprntCase_fmt (strAt : UInt32 → List Char) (f : Char) (s : Spec)
    (string rest : List Char) :
    fdoprntCase strAt f { s with fmt := rest } string = fdoprntCase strAt f s string := by
  by_cases h : f ∈ letters
  · simp only [letters, List.mem_cons, List.not_mem_nil, or_false] at h
    rcases h with rfl | rfl | rfl | rfl | rfl | rfl | rfl | rfl <;> rfl
  · rw [fdoprntCase_unknown h, fdoprntCase_unknown h]

theorem items_literal {c : Char} (hc : c ≠ '%') (hnull : c ≠ NULLCH) :
    items (c :: fmt) ap = .literal c :: items fmt ap := by
  rw [items, if_pos hc, if_neg hnull]

theorem items_percent (h : fmt.headD NULLCH = '%') :
    items ('%' :: fmt) ap = .literal '%' :: items fmt.tail ap := by
  rw [items, if_neg (not_not_intro rfl), if_pos h]

theorem items_cut (h : fmt.headD NULLCH ≠ '%')
    (hf : (readSpec fmt ap).fmt.headD NULLCH = NULLCH) : items ('%' :: fmt) ap = [.literal '%'] := by
  rw [items, if_neg (not_not_intro rfl), if_neg h]
  exact if_pos hf

theorem items_conv (h : fmt.headD NULLCH ≠ '%')
    (hf : (readSpec fmt ap).fmt.headD NULLCH ≠ NULLCH) : items ('%' :: fmt) ap =
      .conv ((readSpec fmt ap).fmt.headD NULLCH) { readSpec fmt ap with fmt := [] } ::
        items (readSpec fmt ap).fmt.tail
          (argsAfter ((readSpec fmt ap).fmt.headD NULLCH) (readSpec fmt ap).ap) := by
  rw [items, if_neg (not_not_intro rfl), if_neg h]
  exact if_neg hf

/-- The formatter puts out the items of its format. -/
theorem fdoprnt_eq_putItems (string : List Char) :
    fdoprnt strAt farg fmt ap string = putItems strAt farg (items fmt ap) string := by
  induction fmt, ap using items.induct generalizing string with
  | case1 ap =>
      rw [fdoprnt, items]
      rfl
  | case2 fmt ap hc =>
      rw [fdoprnt, items, if_pos hc, if_pos rfl, if_pos hc, if_pos rfl]
      rfl
  | case3 c fmt ap hc hnull ih =>
      rw [fdoprnt, if_pos hc, if_neg hnull, items_literal hc hnull, ih]
      rfl
  | case4 c fmt ap hc hpercent ih =>
      obtain rfl : c = '%' := not_not.mp hc
      rw [fdoprnt, if_neg hc, if_pos hpercent, items_percent hpercent, ih]
      rfl
  | case5 c fmt ap hc hpercent s f hf =>
      obtain rfl : c = '%' := not_not.mp hc
      rw [fdoprnt, if_neg hc, if_neg hpercent, items_cut hpercent hf]
      exact if_pos hf
  | case6 c fmt ap hc hpercent s f hf ih =>
      obtain rfl : c = '%' := not_not.mp hc
      rw [fdoprnt, if_neg hc, if_neg hpercent, items_conv hpercent hf]
      have hcase := fdoprntCase_fmt strAt f s string []
      refine (if_neg hf).trans ?_
      unfold putItems putItem
      dsimp only
      rw [hcase, fdoprntCase_ap, ih]

/-!
## Bytes behind the terminators
-/

theorem headD_append_null (behind : List Char) :
    (fmt ++ NULLCH :: behind).headD NULLCH = fmt.headD NULLCH := by
  cases fmt <;> rfl

theorem tail_append_null (behind : List Char) (h : fmt.headD NULLCH ≠ NULLCH) :
    (fmt ++ NULLCH :: behind).tail = fmt.tail ++ NULLCH :: behind := by
  cases fmt with
  | nil => exact absurd rfl h
  | cons c fmt => rfl

theorem number_append_null (n : Int) (behind : List Char) :
    number n (fmt ++ NULLCH :: behind) =
      ((number n fmt).1, (number n fmt).2 ++ NULLCH :: behind) := by
  induction fmt generalizing n with
  | nil => rfl
  | cons c fmt ih =>
      rw [List.cons_append]
      unfold number
      split
      · exact ih _
      · rfl

theorem skip_append_null {c : Char} (hc : c ≠ NULLCH) (behind : List Char) :
    skip c (fmt ++ NULLCH :: behind) = ((skip c fmt).1, (skip c fmt).2 ++ NULLCH :: behind) := by
  unfold skip
  rw [headD_append_null]
  split
  · rename_i h
    rw [tail_append_null behind (h ▸ hc)]
  · rfl

theorem fieldNumber_append_null (behind : List Char) :
    fieldNumber (fmt ++ NULLCH :: behind) ap = ((fieldNumber fmt ap).1,
      (fieldNumber fmt ap).2.1 ++ NULLCH :: behind, (fieldNumber fmt ap).2.2) := by
  unfold fieldNumber
  rw [headD_append_null]
  split
  · rename_i h
    rw [tail_append_null behind (h ▸ by decide)]
  · rw [number_append_null]

theorem precision_append_null (dot : Bool) (behind : List Char) :
    (if dot then fieldNumber (fmt ++ NULLCH :: behind) ap else (0, fmt ++ NULLCH :: behind, ap)) =
      ((if dot then fieldNumber fmt ap else (0, fmt, ap)).1,
        (if dot then fieldNumber fmt ap else (0, fmt, ap)).2.1 ++ NULLCH :: behind,
        (if dot then fieldNumber fmt ap else (0, fmt, ap)).2.2) := by
  cases dot with
  | true => exact fieldNumber_append_null behind
  | false => rfl

theorem readSpec_append_null (fmt : List Char) (ap : VaList) (behind : List Char) :
    readSpec (fmt ++ NULLCH :: behind) ap =
      { readSpec fmt ap with fmt := (readSpec fmt ap).fmt ++ NULLCH :: behind } := by
  unfold readSpec
  dsimp only
  rw [skip_append_null (by decide), skip_append_null (by decide), fieldNumber_append_null]
  dsimp only
  rw [skip_append_null (by decide)]
  dsimp only
  rw [precision_append_null]

/-- The formatter does not go on behind the end of the format. -/
theorem items_append_null (behind : List Char) :
    items (fmt ++ NULLCH :: behind) ap = items fmt ap := by
  induction fmt, ap using items.induct with
  | case1 ap =>
      rw [List.nil_append, items, items]
      rfl
  | case2 fmt ap hc =>
      rw [List.cons_append, items, items, if_pos hc, if_pos rfl, if_pos hc, if_pos rfl]
  | case3 c fmt ap hc hnull ih =>
      rw [List.cons_append, items_literal hc hnull, items_literal hc hnull, ih]
  | case4 c fmt ap hc hpercent ih =>
      obtain rfl : c = '%' := not_not.mp hc
      have hhead : (fmt ++ NULLCH :: behind).headD NULLCH = '%' :=
        (headD_append_null behind).trans hpercent
      rw [List.cons_append, items_percent hhead, items_percent hpercent,
        tail_append_null behind (hpercent ▸ by decide), ih]
  | case5 c fmt ap hc hpercent s f hf =>
      obtain rfl : c = '%' := not_not.mp hc
      have hhead : (fmt ++ NULLCH :: behind).headD NULLCH ≠ '%' :=
        (headD_append_null behind).symm ▸ hpercent
      have hspec := readSpec_append_null fmt ap behind
      rw [List.cons_append, items_cut hpercent hf]
      apply items_cut hhead
      rw [hspec]
      exact (headD_append_null behind).trans hf
  | case6 c fmt ap hc hpercent s f hf ih =>
      obtain rfl : c = '%' := not_not.mp hc
      have hhead : (fmt ++ NULLCH :: behind).headD NULLCH ≠ '%' :=
        (headD_append_null behind).symm ▸ hpercent
      have hspec := readSpec_append_null fmt ap behind
      have hfhead : (readSpec (fmt ++ NULLCH :: behind) ap).fmt.headD NULLCH = f := by
        rw [hspec]
        exact headD_append_null behind
      rw [List.cons_append, items_conv hpercent hf, items_conv hhead (hfhead ▸ hf), hfhead, hspec]
      dsimp only
      rw [tail_append_null behind hf, ih]

/-!
## What a conversion leaves in the array
-/

theorem Field.Same.refl (k : Field) : k.Same k := ⟨rfl, rfl, rfl, rfl, rfl⟩

theorem showField_same (func : Char → α) (leftjust : Bool) (fmin : Int) {k k' : Field}
    (h : k.Same k') : showField func leftjust fmin k' = showField func leftjust fmin k :=
  (showField_map func leftjust fmin h).trans
    (showField_map func leftjust fmin (Field.Same.refl k)).symm

/-- The bytes that a case puts into the array end with a null character, and fit into the array
unless they are a long binary numeral. -/
theorem fdoprntCase_bytes (hf : f ∈ letters) (hs : f ≠ 's') (s : Spec) :
    ∃ bytes sign fill fmax ap, NULLCH ∈ bytes ∧
      (¬(f = 'b' ∧ 524288 ≤ (s.ap 0).toNat) → bytes.length ≤ 20) ∧
      ∀ strAt string, fdoprntCase strAt f s string =
        ([], Field.inString bytes string sign fill fmax ap) := by
  have hnumber : ∀ k : NumberConv, ¬(k = .b ∧ 524288 ≤ (s.ap 0).toNat) →
      (k.bytes (s.ap 0)).length ≤ 20 := by
    intro k hk
    by_cases ho : k.Overflows (s.ap 0)
    · rw [k.bytes_overflow _ ho]
      decide
    · exact (k.bytes_length_le_iff _ ho).mpr hk
  simp only [letters, List.mem_cons, List.not_mem_nil, or_false] at hf
  rcases hf with rfl | rfl | rfl | rfl | rfl | rfl | rfl | rfl
  · exact ⟨[char s.ap.arg, NULLCH], _, _, _, _, by simp, by simp, fun _ _ => rfl⟩
  · exact absurd rfl hs
  · exact ⟨NumberConv.d.bytes (s.ap 0), _, _, _, _, NumberConv.d.null_mem_bytes _,
      fun _ => hnumber .d (by simp), fun _ _ => rfl⟩
  · exact ⟨NumberConv.u.bytes (s.ap 0), _, _, _, _, NumberConv.u.null_mem_bytes _,
      fun _ => hnumber .u (by simp), fun _ _ => rfl⟩
  · exact ⟨NumberConv.o.bytes (s.ap 0), _, _, _, _, NumberConv.o.null_mem_bytes _,
      fun _ => hnumber .o (by simp), fun _ _ => rfl⟩
  · exact ⟨NumberConv.x.bytes (s.ap 0), _, _, _, _, NumberConv.x.null_mem_bytes _,
      fun _ => hnumber .x (by simp), fun _ _ => rfl⟩
  · exact ⟨NumberConv.X.bytes (s.ap 0), _, _, _, _, NumberConv.X.null_mem_bytes _,
      fun _ => hnumber .X (by simp), fun _ _ => rfl⟩
  · exact ⟨NumberConv.b.bytes (s.ap 0), _, _, _, _, NumberConv.b.null_mem_bytes _,
      fun hb => hnumber .b (by simpa using hb), fun _ _ => rfl⟩

/-- A long binary numeral goes over the end of the array. -/
theorem null_not_mem_binary {v : UInt32} (h : 524288 ≤ v.toNat) (string : List Char) :
    NULLCH ∉ (overlay (NumberConv.b.bytes v) string).take 20 := by
  have ho : ¬NumberConv.b.Overflows v := fun ho => by cases ho.1
  have hlen : ¬(NumberConv.b.bytes v).length ≤ 20 :=
    fun hle => (NumberConv.b.bytes_length_le_iff v ho).mp hle ⟨rfl, h⟩
  have hbytes := NumberConv.b.bytes_eq v ho
  generalize hds : (Positional.inBase NumberConv.b.base (NumberConv.b.value v).natAbs).map
    NumberConv.b.digit = ds at hbytes
  rw [hbytes, List.length_append, List.length_singleton] at hlen
  unfold overlay
  rw [hbytes, List.append_assoc, List.take_append_of_le_length (by omega)]
  intro hmem
  have hin := List.mem_of_mem_take hmem
  rw [← hds] at hin
  obtain ⟨n, hn, hdigit⟩ := List.mem_map.mp hin
  exact NumberConv.b.digit_ne_null n ((Positional.mem_inBase_lt (by decide) hn).trans_le
    NumberConv.b.base_le) hdigit

theorem null_mem_overlay {bytes : List Char} (h : NULLCH ∈ bytes) (hlen : bytes.length ≤ 20)
    (string : List Char) : NULLCH ∈ (overlay bytes string).take 20 := by
  unfold overlay
  rw [List.take_append, List.take_of_length_le hlen]
  exact List.mem_append_left _ h

/-!
## The characters that are put out
-/

/-- Two runs of a case: the strings of the arguments and the array are the same up to their
null characters. -/
theorem putItem_congr (farg : α) (hat : ∀ a, cstring (strAt a) = cstring (strAt' a))
    (hstring : cstring string = cstring string') (i : Item) :
    (putItem strAt' farg i string').1 = (putItem strAt farg i string).1 ∧
      cstring (putItem strAt farg i string).2 = cstring (putItem strAt' farg i string').2 := by
  cases i with
  | literal c => exact ⟨rfl, hstring⟩
  | conv f s =>
      unfold putItem
      dsimp only
      by_cases hs : f = 's'
      · subst hs
        have hsame : (fdoprntCase strAt 's' s string).2.Same
            (fdoprntCase strAt' 's' s string').2 := by
          refine ⟨?_, rfl, rfl, rfl, rfl⟩
          change cstring (if _ then _ else _) = cstring (if _ then _ else _)
          split
          · rfl
          · exact hat _
        rw [showField_same _ _ _ hsame]
        exact ⟨rfl, hstring⟩
      · by_cases hf : f ∈ letters
        · obtain ⟨bytes, sign, fill, fmax, ap, hnull, _, hcase⟩ := fdoprntCase_bytes hf hs s
          rw [hcase, hcase, showField_same _ _ _
            (Field.inString_same hnull string string' sign fill fmax ap)]
          exact ⟨rfl, (cstring_overlay hnull).trans (cstring_overlay hnull).symm⟩
        · rw [fdoprntCase_unknown hf, fdoprntCase_unknown hf]
          constructor
          · exact congrArg _ (showField_same _ _ _ ⟨hstring, rfl, rfl, rfl, rfl⟩)
          · exact hstring

theorem putItems_congr (hat : ∀ a, cstring (strAt a) = cstring (strAt' a)) (l : List Item)
    (hstring : cstring string = cstring string') :
    (putItems strAt' farg l string').1 = (putItems strAt farg l string).1 := by
  induction l generalizing string string' with
  | nil => rfl
  | cons i l ih =>
      obtain ⟨hout, hleft⟩ := putItem_congr farg hat hstring i
      unfold putItems
      dsimp only
      rw [hout, ih hleft]

/-- The letter and the argument of a conversion. -/
def Item.directive : Item → Option (Char × UInt32)
  | .literal _ => none
  | .conv f s => some (f, s.ap 0)

/-- The conversion that first reads the array is known. -/
def Ready (l : List Item) : Prop :=
  ∀ d ∈ (l.filterMap Item.directive).find? fun d => d.1 ≠ 's', d.1 ∈ letters

/-- Until an item settles what is in the array, nobody looks. -/
theorem putItems_ready (hready : Ready l) (string string' : List Char) :
    (putItems strAt farg l string').1 = (putItems strAt farg l string).1 := by
  induction l generalizing string string' with
  | nil => rfl
  | cons i l ih =>
      unfold putItems
      dsimp only
      cases i with
      | literal c => exact congrArg _ (ih hready string string')
      | conv f s =>
          by_cases hs : f = 's'
          · subst hs
            exact congrArg _ (ih hready string string')
          · have hf : f ∈ letters := hready (f, s.ap 0) (by simp [Item.directive, hs])
            obtain ⟨bytes, sign, fill, fmax, ap, hnull, _, hcase⟩ := fdoprntCase_bytes hf hs s
            have hleft : cstring (overlay _ string) = cstring (overlay _ string') :=
              (cstring_overlay hnull).trans (cstring_overlay hnull).symm
            unfold putItem
            dsimp only
            rw [hcase, hcase, showField_same _ _ _
              (Field.inString_same hnull string string' sign fill fmax ap)]
            exact congrArg _ (putItems_congr (fun _ => rfl) l hleft)

/-!
## The arrays that are read
-/

/-- No binary numeral goes over the end of the array. -/
def Short (l : List Item) : Prop :=
  ∀ d ∈ l.filterMap Item.directive, d.1 = 'b' → d.2.toNat < 524288

theorem Short.tail {i : Item} (h : Short (i :: l)) : Short l := by
  intro d hd
  apply h d
  rw [List.filterMap_cons]
  split
  · exact hd
  · exact List.mem_cons_of_mem _ hd

theorem Short.head (h : Short (.conv f s :: l)) : ¬(f = 'b' ∧ 524288 ≤ (s.ap 0).toNat) := by
  intro hlong
  have hlt := h (f, s.ap 0) (by simp [Item.directive]) hlong.1
  dsimp only at hlt
  omega

theorem arraysRead_settled (hshort : Short l) (hnull : NULLCH ∈ string.take 20) :
    ∀ a ∈ arraysRead strAt l string, NULLCH ∈ a.take 20 := by
  induction l generalizing string with
  | nil => simp [arraysRead]
  | cons i l ih =>
      cases i with
      | literal c => exact ih hshort.tail hnull
      | conv f s =>
          unfold arraysRead
          dsimp only
          by_cases hs : f = 's'
          · subst hs
            exact ih hshort.tail hnull
          · rw [if_neg hs]
            have hafter : NULLCH ∈ (fdoprntCase strAt f s string).2.string.take 20 ∧
                (fdoprntCase strAt f s string).2.str = (fdoprntCase strAt f s string).2.string := by
              by_cases hf : f ∈ letters
              · obtain ⟨bytes, sign, fill, fmax, ap, hmem, hlen, hcase⟩ :=
                  fdoprntCase_bytes hf hs s
                rw [hcase]
                exact ⟨null_mem_overlay hmem (hlen hshort.head) string, rfl⟩
              · rw [fdoprntCase_unknown hf]
                exact ⟨hnull, rfl⟩
            intro a ha
            rcases List.mem_cons.mp ha with rfl | ha
            · rw [hafter.2]
              exact hafter.1
            · exact ih hshort.tail hafter.1 a ha

theorem arraysRead_ready (hshort : Short l) (hready : Ready l) :
    ∀ a ∈ arraysRead strAt l string, NULLCH ∈ a.take 20 := by
  induction l generalizing string with
  | nil => simp [arraysRead]
  | cons i l ih =>
      cases i with
      | literal c => exact ih hshort.tail hready
      | conv f s =>
          unfold arraysRead
          dsimp only
          by_cases hs : f = 's'
          · subst hs
            exact ih hshort.tail hready
          · rw [if_neg hs]
            have hf : f ∈ letters := hready (f, s.ap 0) (by simp [Item.directive, hs])
            obtain ⟨bytes, sign, fill, fmax, ap, hmem, hlen, hcase⟩ := fdoprntCase_bytes hf hs s
            have hnull := null_mem_overlay hmem (hlen hshort.head) string
            rw [hcase]
            intro a ha
            rcases List.mem_cons.mp ha with rfl | ha
            · exact hnull
            · exact arraysRead_settled hshort.tail hnull a ha

/-- Each conversion but that of a string reads the array. -/
theorem mem_arraysRead (strAt : UInt32 → List Char) (hmem : .conv f s ∈ l) (hs : f ≠ 's')
    (string : List Char) :
    ∃ string', (fdoprntCase strAt f s string').2.str ∈ arraysRead strAt l string := by
  induction l generalizing string with
  | nil => cases hmem
  | cons i l ih =>
      rcases List.mem_cons.mp hmem with rfl | hrest
      · refine ⟨string, ?_⟩
        unfold arraysRead
        dsimp only
        rw [if_neg hs]
        exact List.mem_cons_self
      · cases i with
        | literal c => exact ih hrest string
        | conv f' s' =>
            obtain ⟨string', hin⟩ := ih hrest (fdoprntCase strAt f' s' string).2.string
            refine ⟨string', ?_⟩
            unfold arraysRead
            dsimp only
            split
            · exact hin
            · exact List.mem_cons_of_mem _ hin

/-- If the first conversion that reads the array is unknown, it reads what was there before. -/
theorem string_mem_arraysRead (hready : ¬Ready l) : string ∈ arraysRead strAt l string := by
  induction l with
  | nil => exact absurd (by simp [Ready]) hready
  | cons i l ih =>
      cases i with
      | literal c => exact ih hready
      | conv f s =>
          unfold arraysRead
          dsimp only
          by_cases hs : f = 's'
          · subst hs
            exact ih hready
          · rw [if_neg hs]
            have hf : f ∉ letters := by
              intro hf
              apply hready
              intro d hd
              simp [Item.directive, hs] at hd
              rw [← hd]
              exact hf
            rw [fdoprntCase_unknown hf]
            exact List.mem_cons_self

end

/-!
## The exact condition
-/

/-- What is put out does not depend on the array of 20 bytes, and nothing is read behind the
null character of the format, behind those of the argument strings, and behind the end of the
array. -/
structure Determined (strAt : UInt32 → List Char) (farg : α) (fmt : List Char) (ap : VaList) :
    Prop where
  same : ∀ string string', string.length = 20 → string'.length = 20 →
    (fdoprnt strAt farg fmt ap string').1 = (fdoprnt strAt farg fmt ap string).1
  format : ∀ behind string,
    (fdoprnt strAt farg (fmt ++ NULLCH :: behind) ap string).1 = (fdoprnt strAt farg fmt ap string).1
  strings : ∀ strAt' string, (∀ a, cstring (strAt a) = cstring (strAt' a)) →
    (fdoprnt strAt' farg fmt ap string).1 = (fdoprnt strAt farg fmt ap string).1
  inside : ∀ string, string.length = 20 →
    ∀ a ∈ arraysRead strAt (items fmt ap) string, NULLCH ∈ a.take 20

/-- The conversions of a format, each with its argument. -/
def directives (fmt : List Char) (ap : VaList) : List (Char × UInt32) :=
  (items fmt ap).filterMap Item.directive

/-- The output is a function of the format and the arguments, and only they are read, exactly
when every binary numeral fits into the array and the first conversion that is not of a string
is known. -/
theorem determined_iff (strAt : UInt32 → List Char) (farg : α) (fmt : List Char) (ap : VaList) :
    Determined strAt farg fmt ap ↔
      (∀ d ∈ directives fmt ap, d.1 = 'b' → d.2.toNat < 524288) ∧
        ∀ d ∈ (directives fmt ap).find? (fun d => d.1 ≠ 's'), d.1 ∈ letters := by
  constructor
  · intro h
    have hinside := h.inside (List.replicate 20 'x') (by simp)
    constructor
    · intro d hd hb
      by_contra hlong
      obtain ⟨i, hi, hdir⟩ := List.mem_filterMap.mp hd
      cases i with
      | literal c => cases hdir
      | conv f s =>
          cases hdir
          obtain rfl : f = 'b' := hb
          obtain ⟨string', hin⟩ := mem_arraysRead strAt hi (by decide)
            (List.replicate 20 'x')
          exact null_not_mem_binary (Nat.not_lt.mp hlong) string' (hinside _ hin)
    · by_contra hready
      exact absurd (hinside _ (string_mem_arraysRead hready)) (by decide)
  · rintro ⟨hshort, hready⟩
    constructor
    · intro string string' _ _
      rw [fdoprnt_eq_putItems, fdoprnt_eq_putItems]
      exact putItems_ready hready string string'
    · intro behind string
      rw [fdoprnt_eq_putItems, fdoprnt_eq_putItems, items_append_null]
    · intro strAt' string hat
      rw [fdoprnt_eq_putItems, fdoprnt_eq_putItems]
      exact putItems_congr hat _ rfl
    · intro string _
      exact arraysRead_ready hshort hready

/-- What the format asks for that consists of an unknown letter. -/
theorem items_unknown : items ['%', 'q'] (fun _ => 0) = [.conv 'q'
    { leftjust := false, fill := ' ', fmin := 0, fmax := 0, fmt := [], ap := fun _ => 0 }] := by
  rw [items_conv (by decide) (by decide)]
  change _ :: items [] _ = _
  rw [items]
  rfl

/-- An unknown letter puts out what happens to be in the array. -/
theorem not_determined : ¬∀ (strAt : UInt32 → List Char) (fmt : List Char) (ap : VaList),
    Determined strAt () fmt ap := by
  intro hall
  have hsame := (hall (fun _ => []) ['%', 'q'] fun _ => 0).same (List.replicate 20 NULLCH)
    ('x' :: List.replicate 19 NULLCH) rfl rfl
  rw [fdoprnt_eq_putItems, fdoprnt_eq_putItems, items_unknown] at hsame
  exact absurd hsame (by decide)

end Stdio
end BbbXinu
