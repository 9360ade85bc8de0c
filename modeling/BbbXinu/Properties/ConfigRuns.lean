import BbbXinu.Config.Parser
import BbbXinu.Lib.Hops
import BbbXinu.Lib.Searches
import BbbXinu.Properties.Numerals

/-!
# Runs of the configuration program

What the parser leaves in the symbol table and in the two lists, in terms of the declarations.  A
symbol keeps its place, so an entry can be given by the places in the table of the whole file.
-/

namespace BbbXinu
namespace Config

open SymbolTable

/-!
## Identifiers
-/

/-- What counts of an identifier. -/
def Ident.sym (id : Ident) : List Char := id.text.take (CONFMAXNM - 1)

/-- The symbol table when some identifiers were read. -/
def syms (ids : List Ident) : List SymEnt :=
  (symbols (ids.map Ident.sym)).map fun w => { name := w, occurs := 0 }

/-- There is room for the symbols of some identifiers. -/
def Fits (ids : List Ident) : Prop := (ids.map Ident.sym).dedup.length ≤ symtabSize

instance (ids : List Ident) : Decidable (Fits ids) := inferInstanceAs (Decidable (_ ≤ _))

/-- The place of a symbol when some identifiers were read. -/
def place (ids : List Ident) (w : List Char) : Nat := position (ids.map Ident.sym) w

def Attr.idents : Attr → List Ident
  | .csr _ => []
  | .irq _ => []
  | .routine _ id => [id]

def attrIdents (attrs : List Attr) : List Ident := attrs.flatMap Attr.idents

def OnDecl.idents (d : OnDecl) : List Ident := d.device :: attrIdents d.attrs

/-- The identifiers of a declaration up to its attributes. -/
def DevDecl.header (d : DevDecl) : List Ident := d.name :: d.type :: d.on.toList

def DevDecl.idents (d : DevDecl) : List Ident := d.header ++ attrIdents d.attrs

def TypeDecl.decls (t : TypeDecl) : List OnDecl := t.first :: t.more

def TypeDecl.idents (t : TypeDecl) : List Ident := t.name :: t.decls.flatMap OnDecl.idents

def Configuration.typeIdents (c : Configuration) : List Ident := c.types.flatMap TypeDecl.idents

/-- The identifiers of a file. -/
def Configuration.idents (c : Configuration) : List Ident :=
  c.typeIdents ++ c.devices.flatMap DevDecl.idents

section

variable {ids file more : List Ident} {id : Ident} {w : List Char} {s : State}

theorem Ident.null_not_mem (id : Ident) : NULLCH ∉ id.sym := by
  have hletter : ¬(NULLCH.isAlphanum || NULLCH = '_') = true := by decide
  intro hmem
  have hmem' := List.mem_of_mem_take hmem
  have htext := id.wellFormed
  cases hcases : id.text with
  | nil => simp [hcases] at hmem'
  | cons c s =>
      rw [hcases, isIdent, Bool.and_eq_true] at htext
      rw [hcases] at hmem'
      cases List.mem_cons.mp hmem' with
      | inl hfirst =>
          rw [← hfirst] at htext
          exact absurd htext.1 (by decide)
      | inr hrest => exact hletter (List.all_eq_true.mp htext.2 _ hrest)

theorem Ident.length_sym (id : Ident) : id.sym.length < CONFMAXNM :=
  (List.length_take_le _ _).trans_lt (by decide)

theorem Ident.cstring_sym (id : Ident) : cstring id.sym = id.sym := by
  have hall : ∀ c ∈ id.sym, decide (c ≠ NULLCH) = true := by
    intro c hc
    exact decide_eq_true fun h => id.null_not_mem (h ▸ hc)
  exact List.takeWhile_eq_self_iff.mpr hall

theorem Ident.strncmp_sym (id id' : Ident) :
    strncmp id.sym id'.sym CONFMAXNM = 0 ↔ id'.sym = id.sym := by
  rw [strncmp_eq_zero, id.cstring_sym, id'.cstring_sym, List.take_of_length_le id.length_sym.le,
    List.take_of_length_le id'.length_sym.le]
  exact eq_comm

theorem fits_iff : Fits ids ↔ (symbols (ids.map Ident.sym)).length ≤ symtabSize := by
  rw [length_symbols]
  rfl

theorem Fits.mono (h : Fits file) (hids : ids <+: file) : Fits ids :=
  fits_iff.mpr ((symbols_mono (hids.map _)).length_le.trans (fits_iff.mp h))

theorem place_mono (h : ids <+: file) (hid : id ∈ ids) :
    place ids id.sym = place file id.sym :=
  position_mono (h.map _) (List.mem_map_of_mem hid)

/-- A place stands for its symbol. -/
theorem place_inj (h : id ∈ ids) : place ids id.sym = place ids w ↔ id.sym = w :=
  position_inj (List.mem_map_of_mem h)

theorem symName_place (h : id ∈ ids) : symName (syms ids) (place ids id.sym) = id.sym := by
  unfold symName syms place
  rw [List.getElem?_map, getElem?_position (List.mem_map_of_mem h)]
  rfl

theorem place_lt (h : id ∈ ids) : place ids id.sym < (syms ids).length := by
  unfold syms
  rw [List.length_map]
  exact position_lt (List.mem_map_of_mem h)

theorem place_head (id : Ident) (ids : List Ident) : place (id :: ids) id.sym = 0 :=
  position_head _ _

theorem findIdx?_syms (ids : List Ident) (id : Ident) :
    ((syms ids).findIdx? fun e => strncmp id.sym e.name CONFMAXNM = 0) =
      (symbols (ids.map Ident.sym)).findIdx? fun w => decide (w = id.sym) := by
  have hcompare : ∀ w ∈ symbols (ids.map Ident.sym),
      decide (strncmp id.sym w CONFMAXNM = 0) = decide (w = id.sym) := by
    intro w hw
    obtain ⟨id', -, rfl⟩ := List.mem_map.mp (mem_symbols.mp hw)
    exact decide_eq_decide.mpr (id.strncmp_sym id')
  unfold syms
  rw [List.findIdx?_map]
  revert hcompare
  generalize symbols (ids.map Ident.sym) = tab
  intro hcompare
  induction tab with
  | nil => rfl
  | cons w tab ih =>
      rw [List.forall_mem_cons] at hcompare
      simp only [List.findIdx?_cons, Function.comp_apply, hcompare.1, ih hcompare.2]

theorem lookup_of_some {str : List Char} {i : Nat}
    (h : (s.symtab.findIdx? fun e => strncmp (str.take (CONFMAXNM - 1)) e.name CONFMAXNM = 0) =
      some i) : lookup str s = .ok (i, s) := by
  unfold lookup
  simp only [h]

theorem lookup_of_none {str : List Char}
    (h : (s.symtab.findIdx? fun e => strncmp (str.take (CONFMAXNM - 1)) e.name CONFMAXNM = 0) =
      none) : lookup str s =
        if s.symtab.length < symtabSize then
          .ok (s.symtab.length,
            { s with symtab := s.symtab ++ [⟨str.take (CONFMAXNM - 1), 0⟩] })
        else .error .undefined := by
  unfold lookup
  simp only [h]

/-- A name is found or entered. -/
theorem lookup_eq (hs : s.symtab = syms ids) (hfits : Fits ids) (id : Ident) :
    lookup id.text s =
      if Fits (ids ++ [id]) then
        .ok (place (ids ++ [id]) id.sym, { s with symtab := syms (ids ++ [id]) })
      else .error .undefined := by
  have hfind := findIdx?_syms ids id
  have hsymbols : symbols ((ids ++ [id]).map Ident.sym) =
      enter (symbols (ids.map Ident.sym)) id.sym := by
    rw [List.map_append]
    exact symbols_concat _ _
  rw [← hs] at hfind
  by_cases hmem : id.sym ∈ ids.map Ident.sym
  · rw [enter_of_mem (mem_symbols.mpr hmem)] at hsymbols
    have hsyms : syms (ids ++ [id]) = syms ids := by
      unfold syms
      rw [hsymbols]
    have hfits' : Fits (ids ++ [id]) := by
      rw [fits_iff, hsymbols]
      exact fits_iff.mp hfits
    have hplace : place (ids ++ [id]) id.sym = place ids id.sym := by
      rw [place, List.map_append]
      exact (position_mono (List.prefix_append _ _) hmem).symm
    rw [findIdx?_symbols_of_mem hmem] at hfind
    rw [lookup_of_some hfind, if_pos hfits', hsyms, ← hs, hplace]
    rfl
  · rw [enter_of_not_mem fun h => hmem (mem_symbols.mp h)] at hsymbols
    rw [findIdx?_symbols_of_not_mem hmem] at hfind
    rw [lookup_of_none hfind, hs]
    have hlength : (syms ids).length = (symbols (ids.map Ident.sym)).length := List.length_map _
    have hfits' : Fits (ids ++ [id]) ↔ (syms ids).length < symtabSize := by
      rw [fits_iff, hsymbols, List.length_append, hlength]
      exact Iff.rfl
    have hplace : place (ids ++ [id]) id.sym = (syms ids).length := by
      rw [hlength, place, List.map_append]
      exact position_concat hmem
    have hsyms : syms (ids ++ [id]) = syms ids ++ [{ name := id.sym, occurs := 0 }] := by
      unfold syms
      rw [hsymbols, List.map_append]
      rfl
    simp only [hfits', hplace, hsyms]
    rfl

end

/-!
## Attributes
-/

/-- What an attribute does to its entry. -/
def Attr.apply (a : Attr) (e : DevEnt) : DevEnt :=
  match a with
  | .csr number => { e with csr := configAtoi number }
  | .irq number => { e with irq := configAtoi number }
  | .routine r id =>
      { e with routine := upd e.routine r (strncpy (e.routine r) id.sym CONFMAXNM) }

def applyAll (attrs : List Attr) (e : DevEnt) : DevEnt := attrs.foldl (fun e a => a.apply e) e

/-- The entry that attributes go to is the last type as long as there are no devices, and then
the last device. -/
inductive Focus : (List SymEnt → DevEnt → State) → Prop where
  | type (ftypes : List DevEnt) (tail currtname : Nat) : Focus fun symtab e =>
      { symtab, ftypes := ftypes ++ [e], tail, devs := [], currtname }
  | device (ftypes : List DevEnt) (tail : Nat) (devs : List DevEnt) (currtname : Nat) :
      Focus fun symtab e => { symtab, ftypes, tail, devs := devs ++ [e], currtname }

section

variable {put : List SymEnt → DevEnt → State} {ids : List Ident} {s : State} {e e' : DevEnt}
  {tok : Tok} {val : Int} {c : Option (List Char)}

theorem Focus.symtab (h : Focus put) (symtab : List SymEnt) (e : DevEnt) :
    (put symtab e).symtab = symtab := by cases h <;> rfl

theorem Focus.set_symtab (h : Focus put) (symtab symtab' : List SymEnt) (e : DevEnt) :
    { put symtab e with symtab := symtab' } = put symtab' e := by cases h <;> rfl

theorem assignLast_concat (h : e.assign tok val c = some e') (l : List DevEnt) :
    assignLast tok val c (l ++ [e]) = some (l ++ [e']) := by
  simp [assignLast, h]

/-- A name in the symbol table fits into a field. -/
theorem strnlen_syms {i : Nat} {x : SymEnt} (h : (syms ids)[i]? = some x) :
    strnlen x.name CONFMAXNM ≠ CONFMAXNM := by
  have hmem := List.mem_of_getElem? h
  obtain ⟨w, hw, rfl⟩ := List.mem_map.mp hmem
  obtain ⟨id, -, rfl⟩ := List.mem_map.mp (mem_symbols.mp hw)
  have hlt := id.length_sym
  unfold strnlen
  rw [id.cstring_sym]
  omega

theorem Focus.newattr_eq (h : Focus put)
    (hassign : e.assign tok val
      (if 0 ≤ val then (syms ids)[val.toNat]?.map SymEnt.name else none) = some e') :
    newattr tok val (put (syms ids) e) = .ok (put (syms ids) e') := by
  have hshort : ((if 0 ≤ val then (syms ids)[val.toNat]?.map SymEnt.name else none).map
      fun c => strnlen c CONFMAXNM) ≠ some CONFMAXNM := by
    split
    · cases hget : (syms ids)[val.toNat]? with
      | none => simp
      | some x => simpa using strnlen_syms hget
    · simp
  unfold newattr
  dsimp only
  rw [h.symtab, if_neg hshort]
  cases h with
  | type ftypes tail currtname => simp [assignLast_concat hassign]
  | device ftypes tail devs currtname => simp [assignLast_concat hassign]

theorem Focus.lookup_eq (h : Focus put) (hfits : Fits ids) (id : Ident) (e : DevEnt) :
    lookup id.text (put (syms ids) e) =
      if Fits (ids ++ [id]) then
        .ok (place (ids ++ [id]) id.sym, put (syms (ids ++ [id])) e)
      else .error .undefined := by
  rw [Config.lookup_eq (h.symtab _ _) hfits, h.set_symtab]

/-- An attribute. -/
theorem Focus.attr_eq (h : Focus put) (hfits : Fits ids) (a : Attr) (e : DevEnt) :
    attr a (put (syms ids) e) =
      if Fits (ids ++ a.idents) then .ok (put (syms (ids ++ a.idents)) (a.apply e))
      else .error .undefined := by
  cases a with
  | csr number =>
      have hids : ids ++ (Attr.csr number).idents = ids := List.append_nil _
      rw [hids, if_pos hfits]
      exact h.newattr_eq rfl
  | irq number =>
      have hids : ids ++ (Attr.irq number).idents = ids := List.append_nil _
      rw [hids, if_pos hfits]
      exact h.newattr_eq rfl
  | routine r id =>
      unfold attr
      dsimp only
      rw [h.lookup_eq hfits id]
      change _ = if Fits (ids ++ [id]) then _ else _
      split
      · have hmem : id ∈ ids ++ [id] := List.mem_append_right _ (List.mem_singleton_self id)
        have hget : (syms (ids ++ [id]))[place (ids ++ [id]) id.sym]? =
            some { name := id.sym, occurs := 0 } := by
          rw [syms, List.getElem?_map, place, getElem?_position (List.mem_map_of_mem hmem)]
          rfl
        apply h.newattr_eq
        rw [if_pos (Int.natCast_nonneg _), Int.toNat_natCast, hget]
        rfl
      · rfl

theorem attrIdents_concat (attrs : List Attr) (a : Attr) :
    attrIdents (attrs ++ [a]) = attrIdents attrs ++ a.idents := by simp [attrIdents]

theorem applyAll_concat (attrs : List Attr) (a : Attr) (e : DevEnt) :
    applyAll (attrs ++ [a]) e = a.apply (applyAll attrs e) := by simp [applyAll]

/-- A list of attributes. -/
theorem Focus.attrList_eq (h : Focus put) (hfits : Fits ids) (attrs : List Attr) (e : DevEnt) :
    attrList attrs (put (syms ids) e) =
      if Fits (ids ++ attrIdents attrs) then
        .ok (put (syms (ids ++ attrIdents attrs)) (applyAll attrs e))
      else .error .undefined := by
  have hids : ids ++ attrIdents [] = ids := List.append_nil _
  have hloop := Hops.foldlM_eq_ite (f := fun s a => attr a s)
    (S := fun done => put (syms (ids ++ attrIdents done)) (applyAll done e))
    (P := fun done => Fits (ids ++ attrIdents done)) (l := attrs) (u := .undefined)
    (by rw [hids]; exact hfits) ?_ ?_
  · rw [hids] at hloop
    exact hloop
  · intro done a _ hwell
    rw [attrIdents_concat, applyAll_concat, ← List.append_assoc]
    exact h.attr_eq hwell a _
  · intro done a hwell
    rw [attrIdents_concat, ← List.append_assoc] at hwell
    exact hwell.mono (List.prefix_append _ _)

end

/-!
## Types
-/

/-- A type on a device. -/
structure Entry where
  type : Ident
  decl : OnDecl

def Entry.key (e : Entry) : List Char × List Char := (e.type.sym, e.decl.device.sym)

def TypeDecl.entries (t : TypeDecl) : List Entry := t.decls.map fun d => { type := t.name, decl := d }

def Configuration.entries (c : Configuration) : List Entry := c.types.flatMap TypeDecl.entries

/-- What the program keeps of a type on a device. -/
def record (file : List Ident) (fresh : Fresh) (e : Entry) : DevEnt :=
  applyAll e.decl.attrs
    (initattr fresh (place file e.type.sym) (place file e.decl.device.sym))

def records (file : List Ident) (fresh : Nat → Fresh) (es : List Entry) : List DevEnt :=
  es.zipIdx.map fun e => record file (fresh e.2) e.1

/-- Where a search goes on behind a number of types. -/
def tailAt (fresh : Nat → Fresh) : Nat → Nat
  | 0 => 0
  | n + 1 => (fresh n).next

/-- The searches through all types stop while their number goes up. -/
def Ends (fresh : Nat → Fresh) (m n : Nat) : Prop := ∀ k < n, m ≤ k → tailAt fresh k = 0

instance (fresh : Nat → Fresh) (m n : Nat) : Decidable (Ends fresh m n) :=
  inferInstanceAs (Decidable (∀ k < n, m ≤ k → _ = 0))

/-- The state when some types are declared. -/
def typesState (file : List Ident) (fresh : Nat → Fresh) (ids : List Ident) (es : List Entry)
    (currtname : Nat) : State where
  symtab := syms ids
  ftypes := records file fresh es
  tail := tailAt fresh es.length
  devs := []
  currtname := currtname

section

variable {file ids : List Ident} {fresh : Nat → Fresh} {es : List Entry} {e : Entry}
  {d : OnDecl} {t : Ident} {s : State} {k m n currtname : Nat}

theorem applyAll_eq {β : Type} {π : DevEnt → β} (h : ∀ a e, π (Attr.apply a e) = π e)
    (attrs : List Attr) (e : DevEnt) : π (applyAll attrs e) = π e := by
  induction attrs generalizing e with
  | nil => rfl
  | cons a attrs ih => exact (ih (a.apply e)).trans (h a e)

@[simp]
theorem applyAll_tname (attrs : List Attr) (e : DevEnt) : (applyAll attrs e).tname = e.tname :=
  applyAll_eq (fun a _ => by cases a <;> rfl) attrs e

@[simp]
theorem applyAll_tnum (attrs : List Attr) (e : DevEnt) : (applyAll attrs e).tnum = e.tnum :=
  applyAll_eq (fun a _ => by cases a <;> rfl) attrs e

@[simp]
theorem applyAll_device (attrs : List Attr) (e : DevEnt) :
    (applyAll attrs e).device = e.device :=
  applyAll_eq (fun a _ => by cases a <;> rfl) attrs e

@[simp]
theorem applyAll_name (attrs : List Attr) (e : DevEnt) : (applyAll attrs e).name = e.name :=
  applyAll_eq (fun a _ => by cases a <;> rfl) attrs e

theorem records_concat (es : List Entry) (e : Entry) :
    records file fresh (es ++ [e]) =
      records file fresh es ++ [record file (fresh es.length) e] := by
  simp [records, List.zipIdx_append]

theorem length_records (es : List Entry) : (records file fresh es).length = es.length := by
  simp [records]

theorem mem_records {x : DevEnt} (h : x ∈ records file fresh es) :
    ∃ e ∈ es, x.tname = place file e.type.sym ∧ x.device = place file e.decl.device.sym := by
  obtain ⟨⟨e, i⟩, hmem, rfl⟩ := List.mem_map.mp h
  have he := List.mem_of_getElem? (List.mem_zipIdx_iff_getElem?.mp hmem)
  exact ⟨e, he, by simp [record, initattr], by simp [record, initattr]⟩

theorem Ends.refl (fresh : Nat → Fresh) (m : Nat) : Ends fresh m m :=
  fun _ hlt hle => absurd hlt hle.not_gt

theorem ends_succ : Ends fresh m (m + 1) ↔ tailAt fresh m = 0 := by
  constructor
  · intro h
    exact h m (Nat.lt_succ_self m) le_rfl
  · intro h k hlt hle
    rw [Nat.le_antisymm (Nat.le_of_lt_succ hlt) hle]
    exact h

theorem ends_trans (hm : m ≤ k) (hk : k ≤ n) :
    Ends fresh m n ↔ Ends fresh m k ∧ Ends fresh k n := by
  constructor
  · intro h
    constructor
    · intro i hlt hle
      exact h i (hlt.trans_le hk) hle
    · intro i hlt hle
      exact h i hlt (hm.trans hle)
  · intro h i hlt hle
    cases lt_or_ge i k with
    | inl hbelow => exact h.1 i hbelow hle
    | inr habove => exact h.2 i hlt habove

theorem searchTypes_some {p : DevEnt → Bool} {e : DevEnt} (h : s.ftypes.find? p = some e) :
    searchTypes p s = .ok (some e) := by
  unfold searchTypes
  simp only [h]

theorem searchTypes_none {p : DevEnt → Bool} (h : ∀ x ∈ s.ftypes, p x = false) :
    searchTypes p s = if s.tail = 0 then .ok none else .error .undefined := by
  have hfind : s.ftypes.find? p = none := by
    rw [List.find?_eq_none]
    intro x hx
    rw [h x hx]
    exact Bool.false_ne_true
  unfold searchTypes
  rw [hfind]

theorem mktype_eq (hnew : ∀ x ∈ s.ftypes, ¬(x.tname = s.currtname ∧ x.device = n))
    (fresh : Fresh) :
    mktype fresh n s =
      if s.tail = 0 then
        .ok { s with
          ftypes := s.ftypes ++ [initattr fresh s.currtname n]
          tail := fresh.next }
      else .error .undefined := by
  unfold mktype
  rw [searchTypes_none fun x hx => decide_eq_false (hnew x hx)]
  split <;> rfl

theorem cktname_eq (hnew : ∀ x ∈ s.ftypes, x.tname ≠ n) :
    cktname n s = if s.tail = 0 then .ok n else .error .undefined := by
  unfold cktname
  rw [searchTypes_none fun x hx => decide_eq_false (hnew x hx)]
  split <;> rfl

theorem lookup_types (hfits : Fits ids) (id : Ident) :
    lookup id.text (typesState file fresh ids es currtname) =
      if Fits (ids ++ [id]) then
        .ok (place (ids ++ [id]) id.sym, typesState file fresh (ids ++ [id]) es currtname)
      else .error .undefined :=
  lookup_eq rfl hfits id

/-- A type on one more device. -/
theorem onDecl_eq (fresh : Nat → Fresh) (hfile : ids ++ d.idents <+: file) (hfits : Fits ids)
    (ht : t ∈ file) (hnew : Entry.key ⟨t, d⟩ ∉ es.map Entry.key) :
    onDecl fresh d (typesState file fresh ids es (place file t.sym)) =
      if Fits (ids ++ d.idents) ∧ tailAt fresh es.length = 0 then
        .ok (typesState file fresh (ids ++ d.idents) (es ++ [⟨t, d⟩]) (place file t.sym))
      else .error .undefined := by
  have hids : ids ++ d.idents = (ids ++ [d.device]) ++ attrIdents d.attrs := by
    simp [OnDecl.idents]
  rw [hids] at hfile ⊢
  have hpre := (List.prefix_append _ _).trans hfile
  have hdevice : d.device ∈ ids ++ [d.device] :=
    List.mem_append_right _ (List.mem_singleton_self _)
  have hother : ∀ x ∈ records file fresh es,
      ¬(x.tname = place file t.sym ∧ x.device = place file d.device.sym) := by
    intro x hx hsame
    obtain ⟨e, he, htname, hdev⟩ := mem_records hx
    rw [htname, hdev] at hsame
    have htype := (place_inj ht).mp hsame.1.symm
    have hon := (place_inj (hpre.subset hdevice)).mp hsame.2.symm
    exact hnew (List.mem_map.mpr ⟨e, he, Prod.ext htype.symm hon.symm⟩)
  have hmktype : mktype (fresh es.length) (place file d.device.sym)
      (typesState file fresh (ids ++ [d.device]) es (place file t.sym)) =
        if tailAt fresh es.length = 0 then
          .ok {
            symtab := syms (ids ++ [d.device])
            ftypes := records file fresh es ++
              [initattr (fresh es.length) (place file t.sym) (place file d.device.sym)]
            tail := (fresh es.length).next
            devs := []
            currtname := place file t.sym }
        else .error .undefined := mktype_eq hother _
  unfold onDecl
  rw [lookup_types hfits]
  by_cases hfits₁ : Fits (ids ++ [d.device])
  · rw [if_pos hfits₁, place_mono hpre hdevice]
    change (mktype (fresh (records file fresh es).length) _ _ >>= fun s => attrList d.attrs s) = _
    rw [length_records, hmktype]
    by_cases hend : tailAt fresh es.length = 0
    · have hfocus := (Focus.type (records file fresh es) (fresh es.length).next
        (place file t.sym)).attrList_eq hfits₁ d.attrs
        (initattr (fresh es.length) (place file t.sym) (place file d.device.sym))
      rw [if_pos hend]
      apply hfocus.trans
      simp only [hend, and_true, typesState, records_concat, List.length_append,
        List.length_singleton]
      rfl
    · rw [if_neg hend, if_neg fun h => hend h.2]
      rfl
  · rw [if_neg hfits₁, if_neg fun h => hfits₁ (h.1.mono (List.prefix_append _ _))]
    rfl

/-- A type on some more devices. -/
theorem onDecls_eq {ds : List OnDecl} (hfile : ids ++ ds.flatMap OnDecl.idents <+: file)
    (hfits : Fits ids) (ht : t ∈ file) (hdistinct : (ds.map fun d => d.device.sym).Nodup)
    (hnew : ∀ e ∈ es, e.type.sym ≠ t.sym) :
    ds.foldlM (fun s d => onDecl fresh d s) (typesState file fresh ids es (place file t.sym)) =
      if Fits (ids ++ ds.flatMap OnDecl.idents) ∧
          Ends fresh es.length (es.length + ds.length) then
        .ok (typesState file fresh (ids ++ ds.flatMap OnDecl.idents)
          (es ++ ds.map fun d => ⟨t, d⟩) (place file t.sym))
      else .error .undefined := by
  have hloop := Hops.foldlM_eq_ite (f := fun s d => onDecl fresh d s)
    (S := fun done => typesState file fresh (ids ++ done.flatMap OnDecl.idents)
      (es ++ done.map fun d => ⟨t, d⟩) (place file t.sym))
    (P := fun done => Fits (ids ++ done.flatMap OnDecl.idents) ∧
      Ends fresh es.length (es.length + done.length)) (l := ds) (u := .undefined) ?_ ?_ ?_
  · simpa using hloop
  · constructor
    · simpa using hfits
    · exact Ends.refl fresh _
  · intro done d hpre hwell
    have hids : ids ++ (done ++ [d]).flatMap OnDecl.idents =
        (ids ++ done.flatMap OnDecl.idents) ++ d.idents := by simp
    have hfile' : (ids ++ done.flatMap OnDecl.idents) ++ d.idents <+: file := by
      obtain ⟨rest, rfl⟩ := hpre
      exact List.IsPrefix.trans ⟨rest.flatMap OnDecl.idents, by simp⟩ hfile
    have hother : Entry.key ⟨t, d⟩ ∉
        (es ++ done.map fun d => (⟨t, d⟩ : Entry)).map Entry.key := by
      intro hmem
      obtain ⟨e, he, hkey⟩ := List.mem_map.mp hmem
      cases List.mem_append.mp he with
      | inl hold => exact hnew e hold (congrArg Prod.fst hkey)
      | inr hsame =>
          obtain ⟨d', hd', rfl⟩ := List.mem_map.mp hsame
          have hnodup : ((done ++ [d]).map fun d => d.device.sym).Nodup :=
            hdistinct.sublist (hpre.sublist.map _)
          rw [List.map_append, List.nodup_append] at hnodup
          exact hnodup.2.2 _ (List.mem_map_of_mem hd') _ (List.mem_singleton_self _)
            (congrArg Prod.snd hkey)
    have hlength : (es ++ done.map fun d => (⟨t, d⟩ : Entry)).length = es.length + done.length := by
      simp
    have hends : Ends fresh es.length (es.length + (done ++ [d]).length) ↔
        tailAt fresh (es.length + done.length) = 0 := by
      rw [List.length_append, List.length_singleton, ← Nat.add_assoc,
        ends_trans (Nat.le_add_right _ _) (Nat.le_succ _), ends_succ]
      exact and_iff_right hwell.2
    have hes : es ++ (done ++ [d]).map (fun d => (⟨t, d⟩ : Entry)) =
        (es ++ done.map fun d => ⟨t, d⟩) ++ [⟨t, d⟩] := by simp
    have hstep := onDecl_eq fresh hfile' hwell.1 ht hother
    rw [hlength] at hstep
    simp only [hids, hends, hes]
    exact hstep
  · intro done d hwell
    constructor
    · apply hwell.1.mono
      rw [List.flatMap_append, ← List.append_assoc]
      exact List.prefix_append _ _
    · rw [List.length_append] at hwell
      exact ((ends_trans (Nat.le_add_right _ _) (by omega)).mp hwell.2).1

theorem length_entries (t : TypeDecl) : t.entries.length = t.decls.length := List.length_map _

/-- One more type. -/
theorem ftype_eq {t : TypeDecl} (hfile : ids ++ t.idents <+: file) (hfits : Fits ids)
    (hdistinct : (t.decls.map fun d => d.device.sym).Nodup)
    (hnew : ∀ e ∈ es, e.type.sym ≠ t.name.sym) :
    ftype fresh t (typesState file fresh ids es currtname) =
      if Fits (ids ++ t.idents) ∧ Ends fresh es.length (es.length + t.entries.length) then
        .ok (typesState file fresh (ids ++ t.idents) (es ++ t.entries) (place file t.name.sym))
      else .error .undefined := by
  have hids : ids ++ t.idents = (ids ++ [t.name]) ++ t.decls.flatMap OnDecl.idents := by
    simp [TypeDecl.idents]
  have hlast : t.name ∈ ids ++ [t.name] :=
    List.mem_append_right _ (List.mem_singleton_self _)
  rw [hids] at hfile ⊢
  have hpre := (List.prefix_append _ _).trans hfile
  have hcktname : cktname (place file t.name.sym)
      (typesState file fresh (ids ++ [t.name]) es currtname) =
        if tailAt fresh es.length = 0 then .ok (place file t.name.sym)
        else .error .undefined := by
    apply cktname_eq
    intro x hx hsame
    obtain ⟨e, he, htname, -⟩ := mem_records hx
    rw [htname] at hsame
    exact hnew e he ((place_inj (hpre.subset hlast)).mp hsame.symm).symm
  have hpos : 0 < t.entries.length := by
    rw [length_entries]
    exact Nat.succ_pos _
  unfold ftype tname
  rw [lookup_types hfits]
  by_cases hfits₁ : Fits (ids ++ [t.name])
  · rw [if_pos hfits₁, place_mono hpre hlast]
    change ((cktname (place file t.name.sym) _ >>= fun i => _) >>= fun s => _) = _
    rw [hcktname]
    by_cases hend : tailAt fresh es.length = 0
    · rw [if_pos hend, length_entries]
      exact onDecls_eq hfile hfits₁ (hpre.subset hlast) hdistinct hnew
    · rw [if_neg hend, if_neg fun h => hend (h.2 _ (Nat.lt_add_of_pos_right hpos) le_rfl)]
      rfl
  · rw [if_neg hfits₁, if_neg fun h => hfits₁ (h.1.mono (List.prefix_append _ _))]
    rfl

end

/-- The types, the devices of each type, and the devices have different names. -/
structure Configuration.Distinct (c : Configuration) : Prop where
  types : (c.types.map fun t => t.name.sym).Nodup
  decls : ∀ t ∈ c.types, (t.decls.map fun d => d.device.sym).Nodup
  devices : (c.devices.map fun d => d.name.sym).Nodup

/-- The type that was declared last. -/
def lastType (file : List Ident) (types : List TypeDecl) : Nat :=
  (types.getLast?.map fun t => place file t.name.sym).getD 0

/-- The types that a file begins with. -/
theorem ftypes_eq (fresh : Nat → Fresh) {file : List Ident} {ts : List TypeDecl}
    (hfile : ts.flatMap TypeDecl.idents <+: file) (htypes : (ts.map fun t => t.name.sym).Nodup)
    (hdecls : ∀ t ∈ ts, (t.decls.map fun d => d.device.sym).Nodup) :
    ts.foldlM (fun s t => ftype fresh t s) State.start =
      if Fits (ts.flatMap TypeDecl.idents) ∧ Ends fresh 0 (ts.flatMap TypeDecl.entries).length then
        .ok (typesState file fresh (ts.flatMap TypeDecl.idents) (ts.flatMap TypeDecl.entries)
          (lastType file ts))
      else .error .undefined := by
  apply Hops.foldlM_eq_ite
    (S := fun done => typesState file fresh (done.flatMap TypeDecl.idents)
      (done.flatMap TypeDecl.entries) (lastType file done))
    (P := fun done => Fits (done.flatMap TypeDecl.idents) ∧
      Ends fresh 0 (done.flatMap TypeDecl.entries).length)
  · exact ⟨by decide, Ends.refl fresh 0⟩
  · intro done t hpre hwell
    have hids : (done ++ [t]).flatMap TypeDecl.idents =
        done.flatMap TypeDecl.idents ++ t.idents := by simp
    have hes : (done ++ [t]).flatMap TypeDecl.entries =
        done.flatMap TypeDecl.entries ++ t.entries := by simp
    have hlast : lastType file (done ++ [t]) = place file t.name.sym := by
      simp [lastType]
    have hfile' : done.flatMap TypeDecl.idents ++ t.idents <+: file := by
      obtain ⟨rest, rfl⟩ := hpre
      exact List.IsPrefix.trans ⟨rest.flatMap TypeDecl.idents, by simp⟩ hfile
    have hnew : ∀ e ∈ done.flatMap TypeDecl.entries, e.type.sym ≠ t.name.sym := by
      intro e he hsame
      obtain ⟨t', ht', he'⟩ := List.mem_flatMap.mp he
      obtain ⟨d, -, rfl⟩ := List.mem_map.mp he'
      have hnodup : ((done ++ [t]).map fun t => t.name.sym).Nodup :=
        htypes.sublist (hpre.sublist.map _)
      rw [List.map_append, List.nodup_append] at hnodup
      exact hnodup.2.2 _ (List.mem_map_of_mem ht') _ (List.mem_singleton_self _) hsame
    have hmem : t ∈ ts := hpre.subset (List.mem_append_right _ (List.mem_singleton_self t))
    have hends : Ends fresh 0 (done.flatMap TypeDecl.entries ++ t.entries).length ↔
        Ends fresh (done.flatMap TypeDecl.entries).length
          ((done.flatMap TypeDecl.entries).length + t.entries.length) := by
      rw [List.length_append, ends_trans (Nat.zero_le _) (Nat.le_add_right _ _)]
      exact and_iff_right hwell.2
    simp only [hids, hes, hlast, hends]
    exact ftype_eq hfile' hwell.1 (hdecls t hmem) hnew
  · intro done t hwell
    rw [List.flatMap_append, List.flatMap_append, List.length_append] at hwell
    constructor
    · exact hwell.1.mono (List.prefix_append _ _)
    · exact ((ends_trans (Nat.zero_le _) (Nat.le_add_right _ _)).mp hwell.2).1

/-- The types of a file. -/
theorem types_eq (fresh : Nat → Fresh) {c : Configuration} (h : c.Distinct) :
    c.types.foldlM (fun s t => ftype fresh t s) State.start =
      if Fits c.typeIdents ∧ Ends fresh 0 c.entries.length then
        .ok (typesState c.idents fresh c.typeIdents c.entries (lastType c.idents c.types))
      else .error .undefined :=
  ftypes_eq fresh (List.prefix_append _ _) h.types h.decls

/-!
## Devices
-/

/-- The name that is read first. -/
def Configuration.firstName (c : Configuration) : List Char :=
  (c.idents.head?.map Ident.sym).getD []

/-- The entry that {lit}`mkdev` finds, with its place.  Without an {lit}`on` it takes the device
for the first name in the symbol table. -/
def selected (first : List Char) (es : List Entry) (d : DevDecl) : Option (Entry × Nat) :=
  es.zipIdx.find? fun e =>
    e.1.type.sym = d.type.sym ∧ e.1.decl.device.sym = (d.on.map Ident.sym).getD first

/-- A device that is built from an entry. -/
def built (file : List Ident) (fresh : Nat → Fresh) (d : DevDecl) (e : Entry × Nat) : DevEnt :=
  applyAll d.attrs
    { record file (fresh e.2) e.1 with name := some (place file d.name.sym) }

/-- The devices that are built before the first one without an entry. -/
def buildAll (file : List Ident) (fresh : Nat → Fresh) (select : DevDecl → Option (Entry × Nat)) :
    List DevDecl → List DevEnt
  | [] => []
  | d :: ds =>
      match select d with
      | some e => built file fresh d e :: buildAll file fresh select ds
      | none => []

/-- There is an entry for each of the devices. -/
def AllFound (select : DevDecl → Option (Entry × Nat)) (ds : List DevDecl) : Prop :=
  ∀ d ∈ ds, (select d).isSome

instance (select : DevDecl → Option (Entry × Nat)) (ds : List DevDecl) :
    Decidable (AllFound select ds) := inferInstanceAs (Decidable (∀ d ∈ ds, _))

/-- What is read of the devices. -/
def readBy (select : DevDecl → Option (Entry × Nat)) : List DevDecl → List Ident
  | [] => []
  | d :: ds => if (select d).isSome then d.idents ++ readBy select ds else d.header

/-- The state when the types and some devices are declared. -/
def devState (file : List Ident) (fresh : Nat → Fresh) (ids : List Ident) (es : List Entry)
    (devs : List DevEnt) (currtname : Nat) : State where
  symtab := syms ids
  ftypes := records file fresh es
  tail := tailAt fresh es.length
  devs := devs
  currtname := currtname

section

variable {file ids : List Ident} {fresh : Nat → Fresh} {es : List Entry} {devs : List DevEnt}
  {d : DevDecl} {t o id : Ident} {first : List Char} {n currtname : Nat}

theorem lookup_devs (hfits : Fits ids) (id : Ident) :
    lookup id.text (devState file fresh ids es devs currtname) =
      if Fits (ids ++ [id]) then
        .ok (place (ids ++ [id]) id.sym, devState file fresh (ids ++ [id]) es devs currtname)
      else .error .undefined :=
  lookup_eq rfl hfits id

theorem find_records (fresh : Nat → Fresh) (es : List Entry) (ht : t ∈ file) (ho : o ∈ file) :
    ((records file fresh es).find? fun x =>
      x.tname = place file t.sym ∧
        ((some (place file o.sym) : Option Nat) = none ∨
          some x.device = some (place file o.sym))) =
      (es.zipIdx.find? fun e => e.1.type.sym = t.sym ∧ e.1.decl.device.sym = o.sym).map
        fun e => record file (fresh e.2) e.1 := by
  unfold records
  rw [List.find?_map]
  congr 2
  funext e
  have htype : (record file (fresh e.2) e.1).tname = place file t.sym ↔ e.1.type.sym = t.sym := by
    simp only [record, applyAll_tname, initattr]
    rw [eq_comm, place_inj ht, eq_comm]
  have hdevice : (record file (fresh e.2) e.1).device = place file o.sym ↔
      e.1.decl.device.sym = o.sym := by
    simp only [record, applyAll_device, initattr]
    rw [eq_comm, place_inj ho, eq_comm]
  simp only [Function.comp_apply, htype, hdevice, Option.some.injEq, reduceCtorEq, false_or]

theorem mkdev_eq (ht : t ∈ file) (ho : o ∈ file) (n : Nat) :
    mkdev n (place file t.sym) (place file o.sym)
      (devState file fresh ids es devs currtname) =
        match es.zipIdx.find? fun e =>
          e.1.type.sym = t.sym ∧ e.1.decl.device.sym = o.sym with
        | some e => .ok (devState file fresh ids es
            (devs ++ [{ record file (fresh e.2) e.1 with name := some n }]) currtname)
        | none =>
            if tailAt fresh es.length = 0 then
              .error (.exit (devState file fresh ids es devs currtname))
            else .error .undefined := by
  have hfind := find_records fresh es ht ho
  have hftypes : (devState file fresh ids es devs currtname).ftypes = records file fresh es := rfl
  rw [← hftypes] at hfind
  unfold mkdev
  rw [if_pos (Int.natCast_nonneg _), Int.toNat_natCast]
  dsimp only
  cases hselect : es.zipIdx.find? fun e =>
      e.1.type.sym = t.sym ∧ e.1.decl.device.sym = o.sym with
  | some e =>
      rw [hselect] at hfind
      rw [searchTypes_some hfind]
      rfl
  | none =>
      rw [hselect] at hfind
      rw [searchTypes_none fun x hx => Bool.eq_false_iff.mpr (List.find?_eq_none.mp hfind x hx)]
      change (if tailAt fresh es.length = 0 then _ else _) >>= _ = _
      split <;> rfl

theorem ckdname_eq {s : State} (hnew : ∀ x ∈ s.devs, x.name ≠ some n) : ckdname n s = .ok n := by
  have hany : (s.devs.any fun e => e.name = some n) = false := by
    rw [List.any_eq_false]
    intro x hx
    simpa using hnew x hx
  unfold ckdname
  rw [hany]
  rfl

/-- The first name of a file stands for a missing {lit}`on`. -/
def IsFirst (file : List Ident) (first : List Char) : Prop :=
  ∃ id, file.head? = some id ∧ id.sym = first

theorem IsFirst.place (h : IsFirst file first) :
    ∃ o ∈ file, o.sym = first ∧ Config.place file o.sym = 0 := by
  obtain ⟨id, hhead, hsym⟩ := h
  cases file with
  | nil => cases hhead
  | cons o file =>
      cases hhead
      exact ⟨id, List.mem_cons_self, hsym, place_head id file⟩

/-- The device of an {lit}`on`, or 0. -/
theorem optionalOn_eq (hfile : ids ++ d.on.toList <+: file) (hfits : Fits ids)
    (hfirst : IsFirst file first) :
    ∃ o ∈ file, o.sym = (d.on.map Ident.sym).getD first ∧ ∀ fresh es devs currtname,
      optionalOn d.on (devState file fresh ids es devs currtname) =
        if Fits (ids ++ d.on.toList) then
          .ok ((place file o.sym : Int),
            devState file fresh (ids ++ d.on.toList) es devs currtname)
        else .error .undefined := by
  cases hon : d.on with
  | none =>
      obtain ⟨o, ho, hsym, hzero⟩ := hfirst.place
      have hids : ids ++ (none : Option Ident).toList = ids := List.append_nil _
      rw [hids]
      exists o
      constructor
      · exact ho
      · constructor
        · exact hsym
        · intro fresh es devs currtname
          rw [if_pos hfits, hzero]
          rfl
  | some id =>
      have hlast : id ∈ ids ++ [id] := List.mem_append_right _ (List.mem_singleton_self _)
      rw [hon] at hfile
      change ids ++ [id] <+: file at hfile
      exists id
      constructor
      · exact hfile.subset hlast
      · constructor
        · rfl
        · intro fresh es devs currtname
          change (lookup id.text _ >>= fun r => _) = if Fits (ids ++ [id]) then _ else _
          rw [lookup_devs hfits]
          split
          · rw [place_mono hfile hlast]
            rfl
          · rfl

/-- A device up to its attributes. -/
theorem fspec_eq (hfile : ids ++ d.header <+: file) (hfits : Fits ids)
    (hfirst : IsFirst file first) (hnew : ∀ x ∈ devs, x.name ≠ some (place file d.name.sym)) :
    fspec d (devState file fresh ids es devs currtname) =
      if Fits (ids ++ d.header) then
        match selected first es d with
        | some e => .ok (devState file fresh (ids ++ d.header) es
            (devs ++ [{ record file (fresh e.2) e.1 with
              name := some (place file d.name.sym) }]) currtname)
        | none =>
            if tailAt fresh es.length = 0 then
              .error (.exit (devState file fresh (ids ++ d.header) es devs currtname))
            else .error .undefined
      else .error .undefined := by
  have hids : ids ++ d.header = ((ids ++ [d.name]) ++ [d.type]) ++ d.on.toList := by
    simp [DevDecl.header]
  rw [hids] at hfile ⊢
  have hpre₂ := (List.prefix_append _ _).trans hfile
  have hpre₁ := (List.prefix_append _ _).trans hpre₂
  have hname : d.name ∈ ids ++ [d.name] := List.mem_append_right _ (List.mem_singleton_self _)
  have htype : d.type ∈ (ids ++ [d.name]) ++ [d.type] :=
    List.mem_append_right _ (List.mem_singleton_self _)
  unfold fspec
  rw [lookup_devs hfits]
  by_cases hfits₁ : Fits (ids ++ [d.name])
  · rw [if_pos hfits₁, place_mono hpre₁ hname]
    change (ckdname (place file d.name.sym) _ >>= fun nameid => _) = _
    rw [ckdname_eq hnew]
    change (lookup d.type.text _ >>= fun r => _) = _
    rw [lookup_devs hfits₁]
    by_cases hfits₂ : Fits ((ids ++ [d.name]) ++ [d.type])
    · obtain ⟨o, ho, hsym, hon⟩ := optionalOn_eq hfile hfits₂ hfirst
      rw [if_pos hfits₂, place_mono hpre₂ htype]
      change (optionalOn d.on _ >>= fun r => _) = _
      rw [hon]
      by_cases hfits₃ : Fits (((ids ++ [d.name]) ++ [d.type]) ++ d.on.toList)
      · rw [if_pos hfits₃, if_pos hfits₃]
        unfold selected
        rw [← hsym]
        exact mkdev_eq (hpre₂.subset htype) ho _
      · rw [if_neg hfits₃, if_neg hfits₃]
        rfl
    · rw [if_neg hfits₂, if_neg fun h => hfits₂ (h.mono (List.prefix_append _ _))]
      rfl
  · have hpre := (List.prefix_append (ids ++ [d.name]) [d.type]).trans
      (List.prefix_append _ d.on.toList)
    rw [if_neg hfits₁, if_neg fun h => hfits₁ (h.mono hpre)]
    rfl

/-- A device. -/
theorem descriptor_eq (fresh : Nat → Fresh) (es : List Entry) (currtname : Nat)
    (hfile : ids ++ d.idents <+: file) (hfits : Fits ids) (hfirst : IsFirst file first)
    (hnew : ∀ x ∈ devs, x.name ≠ some (place file d.name.sym)) :
    descriptor d (devState file fresh ids es devs currtname) =
      match selected first es d with
      | some e =>
          if Fits (ids ++ d.idents) then
            .ok (devState file fresh (ids ++ d.idents) es (devs ++ [built file fresh d e]) currtname)
          else .error .undefined
      | none =>
          if Fits (ids ++ d.header) ∧ tailAt fresh es.length = 0 then
            .error (.exit (devState file fresh (ids ++ d.header) es devs currtname))
          else .error .undefined := by
  have hids : ids ++ d.idents = (ids ++ d.header) ++ attrIdents d.attrs := by
    simp [DevDecl.idents]
  rw [hids] at hfile ⊢
  unfold descriptor
  rw [fspec_eq ((List.prefix_append _ _).trans hfile) hfits hfirst hnew]
  by_cases hheader : Fits (ids ++ d.header)
  · rw [if_pos hheader]
    cases selected first es d with
    | some e =>
        exact (Focus.device (records file fresh es) (tailAt fresh es.length) devs
          currtname).attrList_eq hheader d.attrs _
    | none =>
        simp only [hheader, true_and]
        split <;> rfl
  · rw [if_neg hheader]
    cases selected first es d with
    | some e =>
        dsimp only
        rw [if_neg fun h => hheader (h.mono (List.prefix_append _ _))]
        rfl
    | none =>
        dsimp only
        rw [if_neg fun h => hheader h.1]
        rfl

theorem built_name (d : DevDecl) (e : Entry × Nat) :
    (built file fresh d e).name = some (place file d.name.sym) :=
  applyAll_name _ _

theorem allFound_nil {select : DevDecl → Option (Entry × Nat)} : AllFound select [] :=
  fun _ hd => absurd hd List.not_mem_nil

theorem allFound_cons {select : DevDecl → Option (Entry × Nat)} {ds : List DevDecl}
    (h : (select d).isSome) : AllFound select (d :: ds) ↔ AllFound select ds := by
  unfold AllFound
  rw [List.forall_mem_cons]
  exact and_iff_right h

theorem readBy_of_allFound {select : DevDecl → Option (Entry × Nat)} {ds : List DevDecl}
    (h : AllFound select ds) :
    readBy select ds = ds.flatMap DevDecl.idents := by
  induction ds with
  | nil => rfl
  | cons d ds ih =>
      have hd := h d List.mem_cons_self
      rw [readBy, if_pos hd, List.flatMap_cons, ih ((allFound_cons hd).mp h)]

/-- The devices of a file, from what {lit}`mkdev` finds for them. -/
theorem devices_eq (fresh : Nat → Fresh) (es : List Entry) (devs : List DevEnt)
    (currtname : Nat) {ds : List DevDecl} (hfile : ids ++ ds.flatMap DevDecl.idents <+: file)
    (hfits : Fits ids) (hfirst : ds ≠ [] → IsFirst file first)
    (hdistinct : (ds.map fun d => d.name.sym).Nodup)
    (hnew : ∀ x ∈ devs, ∀ d ∈ ds, x.name ≠ some (place file d.name.sym)) :
    ds.foldlM (fun s d => descriptor d s) (devState file fresh ids es devs currtname) =
      let s := devState file fresh (ids ++ readBy (selected first es) ds) es
        (devs ++ buildAll file fresh (selected first es) ds) currtname
      if AllFound (selected first es) ds then
        if Fits (ids ++ readBy (selected first es) ds) then .ok s else .error .undefined
      else if Fits (ids ++ readBy (selected first es) ds) ∧ tailAt fresh es.length = 0 then
        .error (.exit s)
      else .error .undefined := by
  induction ds generalizing ids devs with
  | nil =>
      simp only [readBy, buildAll, List.append_nil, allFound_nil, hfits, if_true]
      rfl
  | cons d ds ih =>
      have hids : ids ++ (d :: ds).flatMap DevDecl.idents =
          (ids ++ d.idents) ++ ds.flatMap DevDecl.idents := by simp
      rw [hids] at hfile
      have hpre := (List.prefix_append _ _).trans hfile
      have hname : d.name ∈ file := hpre.subset (by simp [DevDecl.idents, DevDecl.header])
      have hstep := descriptor_eq fresh es currtname hpre hfits
        (hfirst (List.cons_ne_nil _ _)) fun x hx => hnew x hx d List.mem_cons_self
      rw [List.map_cons, List.nodup_cons] at hdistinct
      rw [List.foldlM_cons, hstep]
      cases hselect : selected first es d with
      | none =>
          have hall : ¬AllFound (selected first es) (d :: ds) := by
            intro h
            have hfound := h d List.mem_cons_self
            rw [hselect] at hfound
            cases hfound
          simp only [readBy, buildAll, hselect, Option.isSome_none, List.append_nil, hall,
            if_false, Bool.false_eq_true]
          split <;> rfl
      | some e =>
          have hall : AllFound (selected first es) (d :: ds) ↔ AllFound (selected first es) ds :=
            allFound_cons (by rw [hselect]; rfl)
          have hread : ids ++ readBy (selected first es) (d :: ds) =
              (ids ++ d.idents) ++ readBy (selected first es) ds := by
            simp [readBy, hselect]
          have hbuilt : devs ++ buildAll file fresh (selected first es) (d :: ds) =
              (devs ++ [built file fresh d e]) ++ buildAll file fresh (selected first es) ds := by
            simp [buildAll, hselect]
          simp only [hall, hread, hbuilt]
          by_cases hroom : Fits (ids ++ d.idents)
          · rw [if_pos hroom]
            apply ih _ hfile hroom (fun _ => hfirst (List.cons_ne_nil _ _)) hdistinct.2
            intro x hx d' hd'
            cases List.mem_append.mp hx with
            | inl hold => exact hnew x hold d' (List.mem_cons_of_mem _ hd')
            | inr hlast =>
                rw [List.mem_singleton.mp hlast, built_name]
                intro hsame
                have hsym := (place_inj hname).mp (Option.some.inj hsame)
                exact hdistinct.1 (hsym ▸ List.mem_map_of_mem (f := fun d => d.name.sym) hd')
          · have hnot : ¬Fits ((ids ++ d.idents) ++ readBy (selected first es) ds) :=
              fun h => hroom (h.mono (List.prefix_append _ _))
            simp only [hroom, hnot, if_false, false_and, ite_self]
            rfl

end

/-- What {lit}`mkdev` finds for a device of a file. -/
def Configuration.select (c : Configuration) : DevDecl → Option (Entry × Nat) :=
  selected c.firstName c.entries

/-- The identifiers that are read before the program exits, or all of them. -/
def Configuration.identsRead (c : Configuration)
    (select : DevDecl → Option (Entry × Nat)) : List Ident :=
  c.typeIdents ++ readBy select c.devices

/-- The state at the end of a file, or where the program exits. -/
def Configuration.final (fresh : Nat → Fresh) (c : Configuration) : State :=
  devState c.idents fresh (c.identsRead c.select) c.entries
    (buildAll c.idents fresh c.select c.devices) (lastType c.idents c.types)

theorem Configuration.isFirst {c : Configuration} (h : c.devices ≠ []) :
    IsFirst c.idents c.firstName := by
  obtain ⟨d, ds, hdevices⟩ := List.exists_cons_of_ne_nil h
  cases hids : c.idents with
  | nil =>
      have hname : d.name ∈ c.idents := by
        simp [Configuration.idents, hdevices, DevDecl.idents, DevDecl.header]
      rw [hids] at hname
      cases hname
  | cons id ids =>
      exists id
      constructor
      · rfl
      · simp [Configuration.firstName, hids]

/-- What the parser does with a file. -/
theorem yyparse_eq (fresh : Nat → Fresh) {c : Configuration} (h : c.Distinct) :
    yyparse fresh c =
      if Ends fresh 0 c.entries.length ∧ Fits (c.identsRead c.select) then
        if AllFound c.select c.devices then .ok (c.final fresh)
        else if tailAt fresh c.entries.length = 0 then .error (.exit (c.final fresh))
        else .error .undefined
      else .error .undefined := by
  have hpre : c.typeIdents <+: c.identsRead c.select := List.prefix_append _ _
  unfold yyparse
  rw [types_eq fresh h]
  by_cases htypes : Fits c.typeIdents
  · by_cases hends : Ends fresh 0 c.entries.length
    · have hdevices := devices_eq fresh c.entries [] (lastType c.idents c.types)
        (List.prefix_refl c.idents) htypes Configuration.isFirst h.devices
        fun x hx => absurd hx List.not_mem_nil
      rw [if_pos ⟨htypes, hends⟩]
      apply hdevices.trans
      change (if AllFound c.select c.devices then
        if Fits (c.identsRead c.select) then Except.ok (c.final fresh) else _
        else if Fits (c.identsRead c.select) ∧ tailAt fresh c.entries.length = 0 then
          Except.error (Stop.exit (c.final fresh))
        else _) = _
      by_cases hall : AllFound c.select c.devices
      · simp only [hall, hends, if_true, true_and]
      · by_cases hread : Fits (c.identsRead c.select)
        · simp only [hall, hread, hends, if_false, true_and, and_self, if_true]
        · simp only [hall, hread, if_false, false_and, and_false]
    · rw [if_neg fun hand => hends hand.2, if_neg fun hand => hends hand.1]
      rfl
  · rw [if_neg fun hand => htypes hand.1, if_neg fun hand => htypes (hand.2.mono hpre)]
    rfl

/-!
## Accepted files

A search that finds what it ought not to find ends the program.
-/

section

variable {file ids : List Ident} {fresh : Nat → Fresh} {es : List Entry} {devs : List DevEnt}
  {t : Ident} {s r : State} {first : List Char} {n currtname : Nat}

theorem nodup_map_concat {α β : Type} {f : α → β} {l : List α} {a : α} (h : (l.map f).Nodup)
    (hnew : ∀ b ∈ l, f b ≠ f a) : ((l ++ [a]).map f).Nodup := by
  rw [List.map_append, List.map_singleton, List.nodup_append]
  constructor
  · exact h
  · constructor
    · exact List.nodup_singleton _
    · intro x hx y hy hsame
      obtain ⟨b, hb, rfl⟩ := List.mem_map.mp hx
      rw [List.mem_singleton.mp hy] at hsame
      exact hnew b hb hsame

theorem searchTypes_found {p : DevEnt → Bool} (h : ∃ x ∈ s.ftypes, p x = true) :
    ∃ e, searchTypes p s = .ok (some e) := by
  rw [← List.find?_isSome, Option.isSome_iff_exists] at h
  obtain ⟨e, he⟩ := h
  exact ⟨e, searchTypes_some he⟩

theorem cktname_found (h : ∃ x ∈ s.ftypes, x.tname = n) : cktname n s = .error (.exit s) := by
  obtain ⟨x, hx, hname⟩ := h
  obtain ⟨e, he⟩ := searchTypes_found (p := fun e => e.tname = n) ⟨x, hx, decide_eq_true hname⟩
  unfold cktname
  rw [he]
  rfl

theorem mktype_found (fresh : Fresh) (h : ∃ x ∈ s.ftypes, x.tname = s.currtname ∧ x.device = n) :
    mktype fresh n s = .error (.exit s) := by
  obtain ⟨x, hx, hsame⟩ := h
  obtain ⟨e, he⟩ := searchTypes_found (p := fun e => e.tname = s.currtname ∧ e.device = n)
    ⟨x, hx, decide_eq_true hsame⟩
  unfold mktype
  rw [he]
  rfl

theorem ckdname_found (h : ∃ x ∈ s.devs, x.name = some n) : ckdname n s = .error (.exit s) := by
  obtain ⟨x, hx, hname⟩ := h
  have hany : (s.devs.any fun e => e.name = some n) = true :=
    List.any_eq_true.mpr ⟨x, hx, decide_eq_true hname⟩
  unfold ckdname
  rw [hany]
  rfl

theorem exists_record (file : List Ident) (fresh : Nat → Fresh) {e : Entry} (he : e ∈ es) :
    ∃ x ∈ records file fresh es,
      x.tname = place file e.type.sym ∧ x.device = place file e.decl.device.sym := by
  obtain ⟨i, hi⟩ := List.getElem?_of_mem he
  exists record file (fresh i) e
  constructor
  · exact List.mem_map.mpr ⟨(e, i), List.mem_zipIdx_iff_getElem?.mpr hi, rfl⟩
  · simp [record, initattr]

/-- An accepted type is on no device twice. -/
theorem onDecl_ok {d : OnDecl} (hfile : ids ++ d.idents <+: file) (hfits : Fits ids)
    (hok : onDecl fresh d (typesState file fresh ids es (place file t.sym)) = .ok r) :
    Entry.key ⟨t, d⟩ ∉ es.map Entry.key := by
  intro hmem
  obtain ⟨e, he, hkey⟩ := List.mem_map.mp hmem
  have htype : e.type.sym = t.sym := congrArg Prod.fst hkey
  have hdevice : e.decl.device.sym = d.device.sym := congrArg Prod.snd hkey
  have hids : ids ++ d.idents = (ids ++ [d.device]) ++ attrIdents d.attrs := by
    simp [OnDecl.idents]
  rw [hids] at hfile
  have hpre := (List.prefix_append _ _).trans hfile
  unfold onDecl at hok
  rw [lookup_types hfits] at hok
  by_cases hfits₁ : Fits (ids ++ [d.device])
  · have hrecord : ∃ x ∈ (typesState file fresh (ids ++ [d.device]) es (place file t.sym)).ftypes,
        x.tname = place file t.sym ∧ x.device = place file d.device.sym := by
      rw [← htype, ← hdevice]
      exact exists_record file fresh he
    rw [if_pos hfits₁, place_mono hpre (by simp)] at hok
    change (mktype _ _ _ >>= fun s => attrList d.attrs s) = _ at hok
    rw [mktype_found _ hrecord] at hok
    cases hok
  · rw [if_neg hfits₁] at hok
    cases hok

theorem onDecls_ok {ds : List OnDecl} (hfile : ids ++ ds.flatMap OnDecl.idents <+: file)
    (hfits : Fits ids) (ht : t ∈ file) (hnew : ∀ e ∈ es, e.type.sym ≠ t.sym)
    (hok : ds.foldlM (fun s d => onDecl fresh d s)
      (typesState file fresh ids es (place file t.sym)) = .ok r) :
    (ds.map fun d => d.device.sym).Nodup := by
  apply Hops.foldlM_ok_induction (P := fun done => (done.map fun d => d.device.sym).Nodup) hok
  · exact List.nodup_nil
  · intro done d hpre hnodup s₁ s₂ hdone hstep
    obtain ⟨rest, rfl⟩ := hpre
    have hfile₁ : (ids ++ done.flatMap OnDecl.idents) ++ d.idents <+: file :=
      List.IsPrefix.trans ⟨rest.flatMap OnDecl.idents, by simp⟩ hfile
    rw [onDecls_eq ((List.prefix_append _ _).trans hfile₁) hfits ht hnodup hnew] at hdone
    by_cases hwell : Fits (ids ++ done.flatMap OnDecl.idents) ∧
        Ends fresh es.length (es.length + done.length)
    · rw [if_pos hwell] at hdone
      cases hdone
      have hkey := onDecl_ok hfile₁ hwell.1 hstep
      apply nodup_map_concat hnodup
      intro d' hd' hsame
      apply hkey
      rw [List.map_append, List.map_map]
      exact List.mem_append_right _ (List.mem_map.mpr ⟨d', hd', Prod.ext rfl hsame⟩)
    · rw [if_neg hwell] at hdone
      cases hdone

/-- An accepted type has a new name. -/
theorem ftype_ok {t : TypeDecl} (hfile : ids ++ t.idents <+: file) (hfits : Fits ids)
    (hok : ftype fresh t (typesState file fresh ids es currtname) = .ok r) :
    (∀ e ∈ es, e.type.sym ≠ t.name.sym) ∧ (t.decls.map fun d => d.device.sym).Nodup := by
  have hids : ids ++ t.idents = (ids ++ [t.name]) ++ t.decls.flatMap OnDecl.idents := by
    simp [TypeDecl.idents]
  have hlast : t.name ∈ ids ++ [t.name] :=
    List.mem_append_right _ (List.mem_singleton_self _)
  rw [hids] at hfile
  have hpre := (List.prefix_append _ _).trans hfile
  unfold ftype tname at hok
  rw [lookup_types hfits] at hok
  by_cases hfits₁ : Fits (ids ++ [t.name])
  · rw [if_pos hfits₁, place_mono hpre hlast] at hok
    change ((cktname (place file t.name.sym) _ >>= fun i => _) >>= fun s => _) = _ at hok
    have hnew : ∀ e ∈ es, e.type.sym ≠ t.name.sym := by
      intro e he hsame
      have hrecord : ∃ x ∈ (typesState file fresh (ids ++ [t.name]) es currtname).ftypes,
          x.tname = place file t.name.sym := by
        obtain ⟨x, hx, htname, -⟩ := exists_record file fresh he
        exact ⟨x, hx, hsame ▸ htname⟩
      rw [cktname_found hrecord] at hok
      cases hok
    have hother : ∀ x ∈ (typesState file fresh (ids ++ [t.name]) es currtname).ftypes,
        x.tname ≠ place file t.name.sym := by
      intro x hx hsame
      obtain ⟨e, he, htname, -⟩ := mem_records hx
      rw [htname] at hsame
      exact hnew e he ((place_inj (hpre.subset hlast)).mp hsame.symm).symm
    rw [cktname_eq hother] at hok
    split at hok
    · exact ⟨hnew, onDecls_ok hfile hfits₁ (hpre.subset hlast) hnew hok⟩
    · cases hok
  · rw [if_neg hfits₁] at hok
    cases hok

theorem ftypes_ok {ts : List TypeDecl} (hfile : ts.flatMap TypeDecl.idents <+: file)
    (hok : ts.foldlM (fun s t => ftype fresh t s) State.start = .ok r) :
    (ts.map fun t => t.name.sym).Nodup ∧
      ∀ t ∈ ts, (t.decls.map fun d => d.device.sym).Nodup := by
  apply Hops.foldlM_ok_induction (P := fun done => (done.map fun t => t.name.sym).Nodup ∧
    ∀ t ∈ done, (t.decls.map fun d => d.device.sym).Nodup) hok
  · exact ⟨List.nodup_nil, fun t ht => absurd ht List.not_mem_nil⟩
  · intro done t hpre hdistinct s₁ s₂ hdone hstep
    obtain ⟨rest, rfl⟩ := hpre
    have hfile₁ : done.flatMap TypeDecl.idents ++ t.idents <+: file :=
      List.IsPrefix.trans ⟨rest.flatMap TypeDecl.idents, by simp⟩ hfile
    rw [ftypes_eq fresh ((List.prefix_append _ _).trans hfile₁) hdistinct.1 hdistinct.2] at hdone
    by_cases hwell : Fits (done.flatMap TypeDecl.idents) ∧
        Ends fresh 0 (done.flatMap TypeDecl.entries).length
    · rw [if_pos hwell] at hdone
      cases hdone
      obtain ⟨hnew, hdecls⟩ := ftype_ok hfile₁ hwell.1 hstep
      constructor
      · apply nodup_map_concat hdistinct.1
        intro t' ht'
        exact hnew ⟨t'.name, t'.first⟩ (List.mem_flatMap.mpr ⟨t', ht', List.mem_cons_self⟩)
      · intro t' ht'
        cases List.mem_append.mp ht' with
        | inl hold => exact hdistinct.2 t' hold
        | inr hlast =>
            rw [List.mem_singleton.mp hlast]
            exact hdecls
    · rw [if_neg hwell] at hdone
      cases hdone

/-- An accepted device has a new name. -/
theorem descriptor_ok {d : DevDecl} (hfile : ids ++ d.idents <+: file) (hfits : Fits ids)
    (hok : descriptor d (devState file fresh ids es devs currtname) = .ok r) :
    ∀ x ∈ devs, x.name ≠ some (place file d.name.sym) := by
  intro x hx hname
  have hids : ids ++ d.idents =
      (ids ++ [d.name]) ++ (d.type :: d.on.toList ++ attrIdents d.attrs) := by
    simp [DevDecl.idents, DevDecl.header]
  rw [hids] at hfile
  have hpre := (List.prefix_append _ _).trans hfile
  unfold descriptor fspec at hok
  rw [lookup_devs hfits] at hok
  by_cases hfits₁ : Fits (ids ++ [d.name])
  · rw [if_pos hfits₁, place_mono hpre (by simp)] at hok
    change ((ckdname (place file d.name.sym) _ >>= fun nameid => _) >>= fun s => _) = _ at hok
    rw [ckdname_found ⟨x, hx, hname⟩] at hok
    cases hok
  · rw [if_neg hfits₁] at hok
    cases hok

theorem exists_built (file : List Ident) (fresh : Nat → Fresh)
    {select : DevDecl → Option (Entry × Nat)} {ds : List DevDecl} {d : DevDecl}
    (h : AllFound select ds) (hd : d ∈ ds) :
    ∃ x ∈ buildAll file fresh select ds, x.name = some (place file d.name.sym) := by
  induction ds with
  | nil => cases hd
  | cons d' ds ih =>
      have hfound := h d' List.mem_cons_self
      obtain ⟨e, he⟩ := Option.isSome_iff_exists.mp hfound
      rw [buildAll, he]
      cases hd with
      | head => exact ⟨_, List.mem_cons_self, built_name d e⟩
      | tail _ hd =>
          obtain ⟨x, hx, hname⟩ := ih ((allFound_cons hfound).mp h) hd
          exact ⟨x, List.mem_cons_of_mem _ hx, hname⟩

theorem devices_ok {ds : List DevDecl} (hfile : ids ++ ds.flatMap DevDecl.idents <+: file)
    (hfits : Fits ids) (hfirst : ds ≠ [] → IsFirst file first)
    (hok : ds.foldlM (fun s d => descriptor d s) (devState file fresh ids es [] currtname) = .ok r) :
    (ds.map fun d => d.name.sym).Nodup := by
  apply Hops.foldlM_ok_induction (P := fun done => (done.map fun d => d.name.sym).Nodup) hok
  · exact List.nodup_nil
  · intro done d hpre hnodup s₁ s₂ hdone hstep
    obtain ⟨rest, rfl⟩ := hpre
    have hfile₁ : (ids ++ done.flatMap DevDecl.idents) ++ d.idents <+: file :=
      List.IsPrefix.trans ⟨rest.flatMap DevDecl.idents, by simp⟩ hfile
    rw [devices_eq fresh es [] currtname ((List.prefix_append _ _).trans hfile₁) hfits
      (fun _ => hfirst (by simp)) hnodup fun x hx => absurd hx List.not_mem_nil] at hdone
    dsimp only at hdone
    split at hdone
    · rename_i hall
      split at hdone
      · rename_i hread
        cases hdone
        rw [readBy_of_allFound hall] at hread hstep
        have hnew := descriptor_ok hfile₁ hread hstep
        apply nodup_map_concat hnodup
        intro d' hd' hsame
        obtain ⟨x, hx, hname⟩ := exists_built file fresh hall hd'
        rw [hsame] at hname
        exact hnew x hx hname
      · cases hdone
    · split at hdone <;> cases hdone

end

/-- In a file that the parser accepts, the types, the devices of each type, and the devices have
different names. -/
theorem distinct_of_accepted (fresh : Nat → Fresh) {c : Configuration} {s : State}
    (h : yyparse fresh c = .ok s) : c.Distinct := by
  have hpre : c.typeIdents <+: c.idents := List.prefix_append _ _
  unfold yyparse at h
  cases htypes : c.types.foldlM (fun s t => ftype fresh t s) State.start with
  | error u =>
      rw [htypes] at h
      cases h
  | ok s₁ =>
      rw [htypes] at h
      obtain ⟨hnames, hdecls⟩ := ftypes_ok hpre htypes
      rw [ftypes_eq fresh hpre hnames hdecls] at htypes
      split at htypes
      · rename_i hwell
        cases htypes
        constructor
        · exact hnames
        · exact hdecls
        · exact devices_ok (List.prefix_refl c.idents) hwell.1 Configuration.isFirst h
      · cases htypes

/-- The parser accepts a file just when its names differ, there is an entry for each device, the
names fit into the symbol table and no search follows a pointer that was not set. -/
theorem yyparse_ok_iff (fresh : Nat → Fresh) (c : Configuration) :
    (∃ s, yyparse fresh c = .ok s) ↔
      c.Distinct ∧ Ends fresh 0 c.entries.length ∧ Fits (c.identsRead c.select) ∧
        AllFound c.select c.devices := by
  constructor
  · rintro ⟨s, hs⟩
    have hdistinct := distinct_of_accepted fresh hs
    rw [yyparse_eq fresh hdistinct] at hs
    split at hs
    · rename_i hwell
      split at hs
      · rename_i hall
        exact ⟨hdistinct, hwell.1, hwell.2, hall⟩
      · split at hs <;> cases hs
    · cases hs
  · rintro ⟨hdistinct, hends, hfits, hall⟩
    exists c.final fresh
    rw [yyparse_eq fresh hdistinct, if_pos ⟨hends, hfits⟩, if_pos hall]

end Config
end BbbXinu
