import BbbXinu.Net.Dhcp

/-!
# The options of a DHCP message

The options are pads, each of one byte, and options with a code, a length and a value, and the
end byte is behind them.  Both loops over them take a pad for a code, and its successor for a
length.
-/

namespace BbbXinu
namespace Net

open Labels

/-- A pad, or an option with its code and its value. -/
inductive OptionItem where
  | pad
  | option (code : UInt8) (value : List UInt8)

namespace OptionItem

def bytes : OptionItem → List UInt8
  | pad => [0]
  | option code value => code :: UInt8.ofNat value.length :: value

def Valid : OptionItem → Prop
  | pad => True
  | option code value => code ≠ 0 ∧ code ≠ 255 ∧ value.length ≤ 255

def isPad : OptionItem → Bool
  | pad => true
  | option _ _ => false

end OptionItem

def areaBytes (items : List OptionItem) : List UInt8 := items.flatMap OptionItem.bytes

/-- A message with a well-formed option area, and any bytes behind its end byte. -/
structure OptionMessage where
  packet : Packet
  items : List OptionItem
  trailing : List UInt8
  valid : ∀ i ∈ items, i.Valid
  holds : Holds packet dc_opt (areaBytes items ++ 255 :: trailing)

/-- The length of the message. -/
def OptionMessage.size (m : OptionMessage) : Nat :=
  dc_opt + (areaBytes m.items ++ 255 :: m.trailing).length

/-- The place of the value of the first option with a key. -/
def firstOption (key : UInt8) : Nat → List OptionItem → Option Nat
  | _, [] => none
  | o, .pad :: items => firstOption key (o + 1) items
  | o, .option code value :: items =>
      if code = key then some (o + 2) else firstOption key (o + 2 + value.length) items

/-- What the options set, one after the other. -/
def setOptions (p : Packet) : BootOptions → Nat → List OptionItem → BootOptions
  | b, _, [] => b
  | b, o, .pad :: items => setOptions p b (o + 1) items
  | b, o, .option _ value :: items => setOptions p (b.set p o) (o + 2 + value.length) items

/-- Every option is found where it is, and nothing else. -/
def OptionMessage.Found (m : OptionMessage) : Prop :=
  (∀ key, getDhcpOptionValue m.packet m.size key = firstOption key dc_opt m.items) ∧
    bootOptions m.packet m.size =
      setOptions m.packet { msgtype := 0, addrmask := 0, routeraddr := 0 } dc_opt m.items

section

variable {p : Packet} {items : List OptionItem} {rest : List UInt8} {key code : UInt8}
  {n o : Nat} {b : BootOptions} {value : List UInt8}

theorem areaBytes_cons (i : OptionItem) (items : List OptionItem) :
    areaBytes (i :: items) = i.bytes ++ areaBytes items := List.flatMap_cons

theorem optionLoop_end (h : ¬o + 1 < n) : optionLoop p n key o = none := by
  rw [optionLoop, if_neg h]

theorem optionLoop_found (h : o + 1 < n) (hkey : p o = key) :
    optionLoop p n key o = some (o + 2) := by
  rw [optionLoop, if_pos h, if_pos hkey]

theorem optionLoop_skip (h : o + 1 < n) (hkey : p o ≠ key) :
    optionLoop p n key o = optionLoop p n key (o + 1 + ((p (o + 1)).toNat + 1)) := by
  rw [optionLoop, if_pos h, if_neg hkey]

theorem bootOptionLoop_end (h : ¬o + 1 < n) : bootOptionLoop p n b o = b := by
  rw [bootOptionLoop, if_neg h]

/-- The code, the length and the place of what follows an option. -/
theorem holds_option (hvalid : (OptionItem.option code value).Valid)
    (h : Holds p o ((OptionItem.option code value).bytes ++ rest)) :
    p o = code ∧ o + 1 + ((p (o + 1)).toNat + 1) = o + 2 + value.length ∧
      Holds p (o + 2 + value.length) rest := by
  rcases h with ⟨hcode, hlen, htail⟩
  have hcount : (p (o + 1)).toNat = value.length := by
    rw [hlen, UInt8.toNat_ofNat', Nat.mod_eq_of_lt (by have := hvalid.2.2; omega)]
  exact ⟨hcode, by omega, (holds_append.mp htail).2⟩

/-- Options without pads are looked at one by one. -/
theorem optionLoop_options (key : UInt8) (hpads : ∀ i ∈ items, i.isPad = false)
    (hvalid : ∀ i ∈ items, i.Valid)
    (h : Holds p o (areaBytes items ++ rest)) (hn : o + (areaBytes items).length < n) :
    optionLoop p n key o =
      (firstOption key o items).or (optionLoop p n key (o + (areaBytes items).length)) := by
  induction items generalizing o with
  | nil => rfl
  | cons i items ih =>
      cases i with
      | pad => exact absurd (hpads _ List.mem_cons_self) (by decide)
      | option code value =>
          rw [areaBytes_cons, List.append_assoc] at h
          rcases holds_option (hvalid _ List.mem_cons_self) h with ⟨hcode, hnext, htail⟩
          have hlen : o + (areaBytes (.option code value :: items)).length =
              o + 2 + value.length + (areaBytes items).length := by
            rw [areaBytes_cons, List.length_append]
            change o + (value.length + 1 + 1 + _) = _
            omega
          rw [hlen] at hn ⊢
          rw [optionLoop, if_pos (by omega), hcode, hnext, firstOption]
          by_cases hkey : code = key
          · rw [if_pos hkey, if_pos hkey, Option.some_or]
          · rw [if_neg hkey, if_neg hkey]
            exact ih (fun i hi => hpads i (List.mem_cons_of_mem _ hi))
              (fun i hi => hvalid i (List.mem_cons_of_mem _ hi)) htail hn

theorem bootOptionLoop_options (hpads : ∀ i ∈ items, i.isPad = false)
    (hvalid : ∀ i ∈ items, i.Valid) (h : Holds p o (areaBytes items ++ rest))
    (hn : o + (areaBytes items).length < n) :
    bootOptionLoop p n b o =
      bootOptionLoop p n (setOptions p b o items) (o + (areaBytes items).length) := by
  induction items generalizing o b with
  | nil => rfl
  | cons i items ih =>
      cases i with
      | pad => exact absurd (hpads _ List.mem_cons_self) (by decide)
      | option code value =>
          rw [areaBytes_cons, List.append_assoc] at h
          rcases holds_option (hvalid _ List.mem_cons_self) h with ⟨hcode, hnext, htail⟩
          have hlen : o + (areaBytes (.option code value :: items)).length =
              o + 2 + value.length + (areaBytes items).length := by
            rw [areaBytes_cons, List.length_append]
            change o + (value.length + 1 + 1 + _) = _
            omega
          rw [hlen] at hn ⊢
          rw [bootOptionLoop, if_pos (by omega), hnext, setOptions]
          exact ih (fun i hi => hpads i (List.mem_cons_of_mem _ hi))
            (fun i hi => hvalid i (List.mem_cons_of_mem _ hi)) htail hn

/-- A key that no option can have is not expected. -/
theorem firstOption_of_valid (hvalid : ∀ i ∈ items, i.Valid) (hkey : key = 0 ∨ key = 255) :
    firstOption key o items = none := by
  induction items generalizing o with
  | nil => rfl
  | cons i items ih =>
      have htail := fun i hi => hvalid i (List.mem_cons_of_mem _ hi)
      cases i with
      | pad => exact ih htail
      | option code value =>
          rcases hvalid _ List.mem_cons_self with ⟨hzero, hend, _⟩
          have hne : code ≠ key := by
            rcases hkey with rfl | rfl
            · exact hzero
            · exact hend
          rw [firstOption, if_neg hne]
          exact ih htail

/-- The options before the first pad. -/
theorem exists_first_pad (h : ∃ i ∈ items, i.isPad = true) :
    ∃ before after, items = before ++ .pad :: after ∧ ∀ i ∈ before, i.isPad = false := by
  induction items with
  | nil =>
      rcases h with ⟨i, hi, _⟩
      cases hi
  | cons i items ih =>
      cases i with
      | pad => exact ⟨[], items, rfl, fun i hi => by cases hi⟩
      | option code value =>
          have hrest : ∃ i ∈ items, i.isPad = true := by
            rcases h with ⟨i, hi, hpad⟩
            rcases List.mem_cons.mp hi with rfl | hi
            · cases hpad
            · exact ⟨i, hi, hpad⟩
          rcases ih hrest with ⟨before, after, rfl, hbefore⟩
          refine ⟨.option code value :: before, after, rfl, fun i hi => ?_⟩
          rcases List.mem_cons.mp hi with rfl | hi
          · rfl
          · exact hbefore i hi

end

namespace OptionMessage

/-- The message has no pads and ends with the end byte. -/
def Plain (m : OptionMessage) : Prop := (∀ i ∈ m.items, i.isPad = false) ∧ m.trailing = []

/-- A pad is taken for an option with code 0. -/
theorem Found.no_pads {m : OptionMessage} (h : m.Found) : ∀ i ∈ m.items, i.isPad = false := by
  intro i hi
  by_contra hpad
  rw [Bool.not_eq_false] at hpad
  rcases exists_first_pad ⟨i, hi, hpad⟩ with ⟨before, after, hitems, hbefore⟩
  have hvalid : ∀ i ∈ before, i.Valid := fun i hi =>
    m.valid i (hitems ▸ List.mem_append_left _ hi)
  have hbytes : areaBytes m.items ++ 255 :: m.trailing =
      areaBytes before ++ (0 :: (areaBytes after ++ 255 :: m.trailing)) := by
    rw [hitems]
    unfold areaBytes
    rw [List.flatMap_append, List.flatMap_cons, List.append_assoc, List.append_assoc]
    rfl
  have hholds := m.holds
  rw [hbytes] at hholds
  have hsize : dc_opt + (areaBytes before).length + 1 < m.size := by
    unfold size
    rw [hbytes, List.length_append, List.length_cons, List.length_append, List.length_cons]
    omega
  have hloop := optionLoop_options 0 hbefore hvalid hholds (Nat.lt_of_succ_lt hsize)
  have hzero := (holds_append.mp hholds).2.1
  rw [firstOption_of_valid hvalid (Or.inl rfl), Option.none_or,
    optionLoop_found hsize hzero] at hloop
  have hfound := h.1 0
  unfold getDhcpOptionValue at hfound
  rw [hloop, firstOption_of_valid m.valid (Or.inl rfl)] at hfound
  cases hfound

/-- Without pads the loops get to the end byte. -/
theorem loops_of_no_pads {m : OptionMessage} (hpads : ∀ i ∈ m.items, i.isPad = false) :
    (∀ key, getDhcpOptionValue m.packet m.size key = (firstOption key dc_opt m.items).or
      (optionLoop m.packet m.size key (dc_opt + (areaBytes m.items).length))) ∧
    bootOptions m.packet m.size = bootOptionLoop m.packet m.size
      (setOptions m.packet { msgtype := 0, addrmask := 0, routeraddr := 0 } dc_opt m.items)
      (dc_opt + (areaBytes m.items).length) := by
  have hsize : dc_opt + (areaBytes m.items).length < m.size := by
    unfold size
    rw [List.length_append, List.length_cons]
    omega
  exact ⟨fun key => optionLoop_options key hpads m.valid m.holds hsize,
    bootOptionLoop_options hpads m.valid m.holds hsize⟩

/-- Bytes behind the end byte are looked at. -/
theorem Found.no_trailing {m : OptionMessage} (h : m.Found) : m.trailing = [] := by
  by_contra hne
  have hpos := List.length_pos_iff.mpr hne
  have hend : m.packet (dc_opt + (areaBytes m.items).length) = 255 :=
    (holds_append.mp m.holds).2.1
  have hsize : dc_opt + (areaBytes m.items).length + 1 < m.size := by
    unfold size
    rw [List.length_append, List.length_cons]
    omega
  have hfound := h.1 255
  rw [(loops_of_no_pads h.no_pads).1, firstOption_of_valid m.valid (Or.inr rfl), Option.none_or,
    optionLoop_found hsize hend] at hfound
  cases hfound

theorem Plain.found {m : OptionMessage} (h : m.Plain) : m.Found := by
  have hsize : ¬dc_opt + (areaBytes m.items).length + 1 < m.size := by
    unfold size
    rw [h.2, List.length_append, List.length_singleton]
    omega
  have hloops := loops_of_no_pads h.1
  constructor
  · intro key
    rw [hloops.1, optionLoop_end hsize, Option.or_none]
  · rw [hloops.2, bootOptionLoop_end hsize]

end OptionMessage

/-!
## The messages that are built
-/

/-- An option with its value is found in a message of the given length. -/
def FoundIn (msg : Packet × Int) (x : UInt8 × List UInt8) : Prop :=
  ∃ o, getDhcpOptionValue msg.1 msg.2.toNat x.1 = some o ∧ Holds msg.1 o x.2

/-- The options that {lit}`build_dhcp_discover` puts into a message. -/
def discoverOptions : List (UInt8 × List UInt8) := [(53, [1]), (55, [1, 3])]

/-- The options that {lit}`build_dhcp_request` puts into a message. -/
def requestOptions (offer : Packet) (serverIp : Nat) : List (UInt8 × List UInt8) :=
  [(53, [3]), (50, bytes4 offer dc_yip), (54, bytes4 offer serverIp)]

section

variable {p : Packet} {n k : Nat} {key t : UInt8} {opts : List UInt8}

/-- The message type is found, if it comes first. -/
theorem found_first (h : Holds p dc_opt (53 :: 1 :: t :: opts)) (hn : dc_opt + 1 < n) :
    FoundIn (p, n) (53, [t]) :=
  ⟨dc_opt + 2, optionLoop_found hn h.1, h.2.2.1, trivial⟩

/-- Nothing else is found when the loop takes a pad behind the message type for a code and so
skips the rest. -/
theorem not_found_later (h : Holds p dc_opt (53 :: 1 :: t :: opts)) (hn : dc_opt + 1 < n)
    (hkey : key ≠ 53) (hskip : optionLoop p n key (dc_opt + 3) = none) (v : List UInt8) :
    ¬FoundIn (p, n) (key, v) := by
  rintro ⟨o, hfound, _⟩
  change optionLoop p n key dc_opt = some o at hfound
  have hcode : p dc_opt ≠ key := fun heq => hkey (heq.symm.trans h.1)
  have hlen : p (dc_opt + 1) = 1 := h.2.1
  have hplace : dc_opt + 1 + ((1 : UInt8).toNat + 1) = dc_opt + 3 := rfl
  rw [optionLoop_skip hn hcode, hlen, hplace, hskip] at hfound
  cases hfound

end

theorem discover_found (ethucast : Mac) : ∀ x ∈ discoverOptions,
    FoundIn (buildDhcpDiscover ethucast) x ↔ x.1 = 53 := by
  have hholds : Holds (buildDhcpDiscover ethucast).1 dc_opt [53, 1, 1, 0, 55, 2, 1, 3] :=
    holds_stored _ _ _
  generalize hp : (buildDhcpDiscover ethucast).1 = p at hholds
  have hmsg : buildDhcpDiscover ethucast = (p, ((249 : Nat) : Int)) := by
    rw [← hp]
    rfl
  have hpad : p (dc_opt + 3) = 0 := hholds.2.2.2.1
  have hnext : p (dc_opt + 3 + 1) = 55 := hholds.2.2.2.2.1
  -- The pad is followed by the code of the list, which is taken for a length.
  have hskip : optionLoop p 249 55 (dc_opt + 3) = none := by
    rw [optionLoop_skip (by decide) (by rw [hpad]; decide), hnext]
    exact optionLoop_end (by decide)
  intro x hx
  rw [hmsg]
  simp only [discoverOptions, List.mem_cons, List.not_mem_nil, or_false] at hx
  rcases hx with rfl | rfl
  · exact iff_of_true (found_first hholds (by decide)) rfl
  · exact iff_of_false (not_found_later hholds (by decide) (by decide) hskip _) (by decide)

theorem request_found (ethucast : Mac) (offer : Packet) (offerSize : Nat) {serverIp : Nat}
    {msg : Packet × Int}
    (hserver : getDhcpOptionValue offer offerSize DHCP_SERVER_ID = some serverIp)
    (hbuild : buildDhcpRequest ethucast offer offerSize = some msg) :
    ∀ x ∈ requestOptions offer serverIp, FoundIn msg x ↔ x.1 = 53 := by
  unfold buildDhcpRequest at hbuild
  rw [hserver, Option.map_some] at hbuild
  have hholds : Holds msg.1 dc_opt ([53, 1, 3, 0, 0, 0, 50, 4] ++ bytes4 offer dc_yip ++
      [0, 0, 54, 4] ++ bytes4 offer serverIp) := by
    cases hbuild
    exact holds_stored _ _ _
  have hlen : msg.2 = ((261 : Nat) : Int) := by
    cases hbuild
    rfl
  generalize hp : msg.1 = p at hholds
  have hmsg : msg = (p, ((261 : Nat) : Int)) := Prod.ext hp hlen
  have hpad : p (dc_opt + 3) = 0 := hholds.2.2.2.1
  have hpad' : p (dc_opt + 3 + 1) = 0 := hholds.2.2.2.2.1
  have hpad'' : p (dc_opt + 5) = 0 := hholds.2.2.2.2.2.1
  have hnext : p (dc_opt + 5 + 1) = 50 := hholds.2.2.2.2.2.2.1
  -- Two pads are taken for an empty option, and the next one has the length 50.
  have hskip : ∀ key : UInt8, key ≠ 0 → optionLoop p 261 key (dc_opt + 3) = none := by
    intro key hkey
    have hplace : dc_opt + 3 + 1 + ((0 : UInt8).toNat + 1) = dc_opt + 5 := rfl
    rw [optionLoop_skip (by decide) (by rw [hpad]; exact hkey.symm), hpad', hplace,
      optionLoop_skip (by decide) (by rw [hpad'']; exact hkey.symm), hnext]
    exact optionLoop_end (by decide)
  intro x hx
  rw [hmsg]
  simp only [requestOptions, List.mem_cons, List.not_mem_nil, or_false] at hx
  rcases hx with rfl | rfl | rfl
  · exact iff_of_true (found_first hholds (by decide)) rfl
  · have hne : (50 : UInt8) ≠ 53 := by decide
    exact iff_of_false (not_found_later hholds (by decide) hne (hskip _ (by decide)) _) hne
  · have hne : (54 : UInt8) ≠ 53 := by decide
    exact iff_of_false (not_found_later hholds (by decide) hne (hskip _ (by decide)) _) hne

/-- In a message that was received all options are found if and only if it has no pads and
ends with its end byte.  Of the options of a message that is built the message type is found,
and no other. -/
theorem dhcp_options_iff (ethucast : Mac) (offer : Packet) (offerSize : Nat) :
    (∀ m : OptionMessage, m.Found ↔ m.Plain) ∧
      (∀ x ∈ discoverOptions, FoundIn (buildDhcpDiscover ethucast) x ↔ x.1 = 53) ∧
      ∀ serverIp ∈ getDhcpOptionValue offer offerSize DHCP_SERVER_ID,
        ∀ msg ∈ buildDhcpRequest ethucast offer offerSize,
          ∀ x ∈ requestOptions offer serverIp, FoundIn msg x ↔ x.1 = 53 :=
  ⟨fun _ => ⟨fun h => ⟨h.no_pads, h.no_trailing⟩, OptionMessage.Plain.found⟩,
    discover_found ethucast,
    fun _ hserver _ hbuild => request_found ethucast offer offerSize hserver hbuild⟩

/-- A pad, and then a message type. -/
def paddedMessage : OptionMessage where
  packet := fun i => [0, 53, 1, 2, 255].getD (i - dc_opt) 0
  items := [.pad, .option 53 [2]]
  trailing := []
  valid := by
    intro i hi
    simp only [List.mem_cons, List.not_mem_nil, or_false] at hi
    rcases hi with rfl | rfl
    · trivial
    · exact ⟨by decide, by decide, by decide⟩
  holds := ⟨rfl, rfl, rfl, rfl, rfl, trivial⟩

/-- The message type behind a pad is not found. -/
theorem paddedMessage_missed :
    getDhcpOptionValue paddedMessage.packet paddedMessage.size 53 = none ∧
      ¬ ∀ m : OptionMessage, m.Found := by
  have hmissed : getDhcpOptionValue paddedMessage.packet paddedMessage.size 53 = none := by
    unfold getDhcpOptionValue
    rw [optionLoop_skip (by decide) (by decide)]
    exact optionLoop_end (by decide)
  refine ⟨hmissed, fun hall => ?_⟩
  have hfound := (hall paddedMessage).1 53
  rw [hmissed] at hfound
  exact absurd hfound (by decide)

end Net
end BbbXinu
