import BbbXinu.Properties.EnvValues
import BbbXinu.Properties.OwnedBlocks
import Mathlib.Data.List.TakeWhile

/-!
# The command history

As long as the history keeps its length, or gives it up for good, the list has a
node for each line it can hold, and the newest lines are in it.  A new length
that is not 0 breaks this: {lit}`set_cmdhistory` builds the new list before it
changes the variable from which {lit}`cmdhistoryinit` takes the length.
-/

namespace BbbXinu

open LinkedLists Runs

/-!
## The list
-/

/-- The nodes at the given addresses, with the strings they point to, form a list:
{lit}`prev` leads from each to the following one and {lit}`next` back. -/
def HistoryChain (node : Nat → Strlist) : Nat → List (Nat × Nat) → Prop
  | _, [] => True
  | next, e :: rest =>
      node e.1 = { str := e.2, prev := headOr NULL (rest.map Prod.fst), next := next } ∧
        HistoryChain node e.1 rest

/-- The line that a pointer stands for. -/
def Shell.line (t : Shell) (s : Nat) : Option (List Char) :=
  if s = NULL then none else some (t.str s)

/-- The size for which a block was allocated that has not been freed since. -/
def allocatedSize : List MemCall → Nat → Option Nat
  | [], _ => none
  | .got a n :: rest, addr => if a = addr then some n else allocatedSize rest addr
  | .freed a _ :: rest, addr => if a = addr then none else allocatedSize rest addr

/-- Every block is freed under the size for which it was allocated. -/
def FreesMatch : List MemCall → Prop
  | [] => True
  | .got _ _ :: rest => FreesMatch rest
  | .freed a n :: rest => allocatedSize rest a = some n ∧ FreesMatch rest

/-- The history has as many nodes as {lit}`cmdhistory` says and holds the last lines that
were added, newest first. -/
structure HistoryKept (t : Shell) (lines : List (List Char)) : Prop where
  list : ∃ l : List (Nat × Nat), l.length = t.val EV_CMDHIST ∧
    t.cmdhistory = headOr NULL (l.map Prod.fst) ∧ HistoryChain t.node NULL l ∧
    (l.map Prod.fst).Nodup ∧ NULL ∉ l.map Prod.fst ∧
    l.map (fun e => t.line e.2) =
      (lines.map some ++ List.replicate l.length none).take l.length
  frees : FreesMatch t.memcalls

/-!
## Runs
-/

/-- What the observer notes: the lines that were added, newest first. -/
def noteLine (lines : List (List Char)) (_ : Shell) (l : ShellCall) (_ : Shell) :
    List (List Char) :=
  match l with
  | .add buf => buf :: lines
  | _ => lines

/-- The text that a command sets {lit}`cmdhistory` to. -/
def historyText : List (List Char) → Option (List Char)
  | [c, name, eq, value] =>
      if c = "set".toList ∧ name = "cmdhistory".toList ∧ eq = "=".toList then some value
      else none
  | _ => none

/-- Command lines are shorter than {lit}`2^31` and do not fill the memory; between them the
length of the history is set, and the rest of the system uses its own blocks. -/
def HistoryCalls (t : Shell) : ShellCall → Prop
  | .set args => historyText args ≠ none
  | .add buf => buf.length < 2147483647 ∧ (t.getmem (buf.length + 1)).1 ≠ uint32 SYSERR
  | .kernel _ => False
  | .heap c => HeapCalls t.heap c

/-- The history is given the length it has, or none, and lines have no null character. -/
def LengthKept (t : Shell) : ShellCall → Prop
  | .set args => ∀ text ∈ historyText args,
      Shell.setval EV_CMDHIST (copied text EV_MAX_VAL_LEN) = t.val EV_CMDHIST ∨
        Shell.setval EV_CMDHIST (copied text EV_MAX_VAL_LEN) = 0
  | .add buf => NULLCH ∉ buf
  | _ => True

/-- The shell starts on a heap in order and finds room for a list of five. -/
def ShellStarts (t : Shell) : Prop :=
  ∃ t₀ : Shell, Reach Heap.step HeapCalls FreshHeap t₀.heap ∧ t₀.val EV_CMDHIST = 5 ∧
    t₀.memcalls = [] ∧ (t₀.getmem (STRLIST_SIZE * 5)).1 ≠ uint32 SYSERR ∧
    t = t₀.cmdhistoryinit

/-!
## Walking the list
-/

section

variable {node node' : Nat → Strlist} {l : List (Nat × Nat)} {t t' : Shell} {next new n : Nat}
  {calls : List MemCall} {mine : List Span} {lines : List (List Char)} {qs : List Nat}

theorem HistoryChain.congr (h : HistoryChain node next l)
    (heq : ∀ a ∈ l.map Prod.fst, node' a = node a) : HistoryChain node' next l := by
  induction l generalizing next with
  | nil => trivial
  | cons e rest ih =>
      refine ⟨?_, ih h.2 fun a ha => heq a (List.mem_cons_of_mem _ ha)⟩
      rw [heq e.1 List.mem_cons_self]
      exact h.1

theorem zip_cons_null (h : ∀ s ∈ l.map Prod.snd, s = NULL) :
    (l.map Prod.fst).zip (NULL :: l.map Prod.snd) = l := by
  induction l with
  | nil => rfl
  | cons e rest ih =>
      have he : e.2 = NULL := h e.2 List.mem_cons_self
      simp only [List.map_cons, List.zip_cons_cons]
      rw [he, ih fun s hs => h s (List.mem_cons_of_mem _ hs), ← he]

theorem lastOr_null {ss : List Nat} (h : ∀ s ∈ ss, s = NULL) : lastOr NULL ss = NULL := by
  rcases List.mem_cons.mp (lastOr_mem NULL ss) with hlast | hlast
  · exact hlast
  · exact h _ hlast

/-- Pushing a string in at the front moves every string one node on, as far as there are
strings. -/
theorem bump_spec (fuel : Nat) (hfuel : l.length ≤ fuel) (hchain : HistoryChain t.node next l)
    (hnodup : (l.map Prod.fst).Nodup) (hnull : NULL ∉ l.map Prod.fst)
    (hpacked : (new :: l.map Prod.snd).Pairwise fun s s' => s = NULL → s' = NULL) :
    ∃ node', Shell.bump fuel (headOr NULL (l.map Prod.fst)) new t =
        (lastOr new (l.map Prod.snd), { t with node := node' }) ∧
      HistoryChain node' next ((l.map Prod.fst).zip (new :: l.map Prod.snd)) ∧
      ∀ a, a ∉ l.map Prod.fst → node' a = t.node a := by
  induction l generalizing fuel new next t with
  | nil =>
      refine ⟨t.node, ?_, trivial, fun _ _ => rfl⟩
      cases fuel with
      | zero => rfl
      | succ fuel => exact if_neg fun h => h.1 rfl
  | cons e rest ih =>
      cases fuel with
      | zero => cases hfuel
      | succ fuel =>
          have hne : e.1 ≠ NULL := fun h => hnull (h ▸ List.mem_cons_self)
          rcases List.nodup_cons.mp hnodup with ⟨hnew, hrest⟩
          rcases List.pairwise_cons.mp hpacked with ⟨hempty, hpackedrest⟩
          by_cases hz : new = NULL
          · have hall : ∀ s ∈ (e :: rest).map Prod.snd, s = NULL := fun s hs => hempty s hs hz
            refine ⟨t.node, ?_, ?_, fun _ _ => rfl⟩
            · rw [hz, lastOr_null hall]
              exact if_neg fun h => h.2 rfl
            · rw [hz, zip_cons_null hall]
              exact hchain
          · have hnode := hchain.1
            have hmoved :
                HistoryChain (t.setNode e.1 { t.node e.1 with str := new }).node e.1 rest := by
              apply hchain.2.congr
              intro a ha
              exact upd_of_ne fun h => hnew (h ▸ ha)
            rcases ih fuel (Nat.le_of_succ_le_succ hfuel) hmoved hrest
              (fun h => hnull (List.mem_cons_of_mem _ h)) hpackedrest with
              ⟨node', heq, hchain', hother⟩
            refine ⟨node', ?_, ⟨?_, hchain'⟩, ?_⟩
            · show Shell.bump (fuel + 1) e.1 new t = _
              unfold Shell.bump
              rw [if_pos ⟨hne, hz⟩]
              dsimp only
              rw [hnode] at heq ⊢
              exact heq
            · rw [hother e.1 hnew]
              show upd t.node e.1 _ e.1 = _
              rw [upd_self, hnode]
              have haddrs : ((rest.map Prod.fst).zip (e.2 :: rest.map Prod.snd)).map Prod.fst =
                  rest.map Prod.fst := by
                apply List.map_fst_zip
                rw [List.length_cons, List.length_map, List.length_map]
                exact Nat.le_succ _
              exact congrArg (fun as => ({ str := new, prev := headOr NULL as, next := next } :
                Strlist)) haddrs.symm
            · intro a ha
              rw [hother a fun h => ha (List.mem_cons_of_mem _ h)]
              exact upd_of_ne fun h => ha (h ▸ List.mem_cons_self)

/-- The nodes of a new list with the given number of nodes, from the given address on. -/
def newNodes : Nat → Nat → List (Nat × Nat)
  | 0, _ => []
  | n + 1, addr => (addr, NULL) :: newNodes n (addr + STRLIST_SIZE)

theorem newNodes_le {addr : Nat} {a : Nat} (h : a ∈ (newNodes n addr).map Prod.fst) :
    addr ≤ a := by
  induction n generalizing addr with
  | zero => cases h
  | succ n ih =>
      rcases List.mem_cons.mp h with rfl | h
      · exact Nat.le_refl _
      · exact Nat.le_trans (Nat.le_add_right addr STRLIST_SIZE) (ih h)

theorem newNodes_nodup (n addr : Nat) : ((newNodes n addr).map Prod.fst).Nodup := by
  induction n generalizing addr with
  | zero => exact List.nodup_nil
  | succ n ih =>
      apply List.nodup_cons.mpr
      refine ⟨fun h => ?_, ih _⟩
      have hle := newNodes_le h
      unfold STRLIST_SIZE at hle
      dsimp only at hle
      omega

theorem newNodes_length (n addr : Nat) : (newNodes n addr).length = n := by
  induction n generalizing addr with
  | zero => rfl
  | succ n ih => exact congrArg Nat.succ (ih _)

theorem newNodes_snd (n addr : Nat) : (newNodes n addr).map Prod.snd = List.replicate n NULL := by
  induction n generalizing addr with
  | zero => rfl
  | succ n ih =>
      show NULL :: (newNodes n (addr + STRLIST_SIZE)).map Prod.snd = _
      rw [ih]
      rfl

/-- The loop of {lit}`cmdhistoryinit` links the nodes. -/
theorem initLoop_spec (n addr next : Nat) (t : Shell) :
    ∃ node', Shell.cmdhistoryinitLoop n addr next t = { t with node := node' } ∧
      HistoryChain node' next (newNodes (n + 1) addr) ∧ ∀ a < addr, node' a = t.node a := by
  induction n generalizing addr next t with
  | zero =>
      refine ⟨_, rfl, ⟨upd_self, trivial⟩, ?_⟩
      intro a ha
      exact upd_of_ne (Nat.ne_of_lt ha)
  | succ n ih =>
      rcases ih (addr + STRLIST_SIZE) addr
        (t.setNode addr { str := NULL, prev := addr + STRLIST_SIZE, next := next }) with
        ⟨node', heq, hchain, hlow⟩
      refine ⟨node', heq, ⟨?_, hchain⟩, ?_⟩
      · rw [hlow addr (Nat.lt_add_of_pos_right (by decide))]
        exact upd_self
      · intro a ha
        rw [hlow a (Nat.lt_of_lt_of_le ha (Nat.le_add_right addr STRLIST_SIZE))]
        exact upd_of_ne (Nat.ne_of_lt ha)

/-!
## Freeing the strings
-/

/-- The block of a string. -/
def Shell.strBlock (t : Shell) (s : Nat) : Span := blockOf s ((t.str s).length + 1)

/-- A string in a block of its own, allocated for its size. -/
def Shell.OwnSize (t : Shell) (s : Nat) : Prop :=
  allocatedSize t.memcalls s = some ((t.str s).length + 1) ∧ (t.str s).length < 2147483647

/-- Freeing strings leaves everything else in the state. -/
structure OnlyFreed (t t' : Shell) : Prop where
  str : t'.str = t.str
  held : t'.held = t.held
  envtab : t'.xinu.envtab = t.xinu.envtab
  cmdhistory : t'.cmdhistory = t.cmdhistory

theorem OnlyFreed.refl (t : Shell) : OnlyFreed t t := ⟨rfl, rfl, rfl, rfl⟩

theorem OnlyFreed.trans {t'' : Shell} (h : OnlyFreed t t') (h' : OnlyFreed t' t'') :
    OnlyFreed t t'' where
  str := h'.str.trans h.str
  held := h'.held.trans h.held
  envtab := h'.envtab.trans h.envtab
  cmdhistory := h'.cmdhistory.trans h.cmdhistory

/-- The strings that the nodes point to. -/
def strings (l : List (Nat × Nat)) : List Nat := (l.map Prod.snd).filter fun s => s ≠ NULL

theorem allocatedSize_freed {addr a : Nat} (h : a ≠ addr) :
    allocatedSize (.freed a n :: calls) addr = allocatedSize calls addr := if_neg h

theorem allocatedSize_got {addr a : Nat} (h : a ≠ addr) :
    allocatedSize (.got a n :: calls) addr = allocatedSize calls addr := if_neg h

theorem freeStrings_succ {fuel tmp : Nat} (h : tmp ≠ NULL) :
    Shell.freeStrings (fuel + 1) tmp t =
      Shell.freeStrings fuel (t.node tmp).prev
        (if (t.node tmp).str ≠ NULL then
          (t.freemem (t.node tmp).str ((t.str (t.node tmp).str).length + 1)).setNode tmp
            { t.node tmp with str := NULL }
        else t) := if_pos h

/-- The loop of {lit}`cmdhistorydel` frees each string once, under its size. -/
theorem freeStrings_spec (fuel : Nat) (hfuel : l.length ≤ fuel) (hchain : HistoryChain t.node next l)
    (hnodup : (l.map Prod.fst).Nodup) (hnull : NULL ∉ l.map Prod.fst)
    (hstrings : (strings l).Nodup) (hsize : ∀ s ∈ strings l, t.OwnSize s)
    (howns : t.Owns ((strings l).map t.strBlock ++ mine)) (hfrees : FreesMatch t.memcalls) :
    OnlyFreed t (Shell.freeStrings fuel (headOr NULL (l.map Prod.fst)) t) ∧
      (Shell.freeStrings fuel (headOr NULL (l.map Prod.fst)) t).Owns mine ∧
      FreesMatch (Shell.freeStrings fuel (headOr NULL (l.map Prod.fst)) t).memcalls ∧
      ∀ a, a ∉ strings l → allocatedSize (Shell.freeStrings fuel
        (headOr NULL (l.map Prod.fst)) t).memcalls a = allocatedSize t.memcalls a := by
  induction l generalizing fuel next t with
  | nil =>
      have hnone :
          Shell.freeStrings fuel (headOr NULL (([] : List (Nat × Nat)).map Prod.fst)) t = t := by
        cases fuel with
        | zero => rfl
        | succ fuel => exact if_neg fun h => h rfl
      rw [hnone]
      exact ⟨.refl t, howns, hfrees, fun _ _ => rfl⟩
  | cons e rest ih =>
      cases fuel with
      | zero => cases hfuel
      | succ fuel =>
          have hne : e.1 ≠ NULL := fun h => hnull (h ▸ List.mem_cons_self)
          have hnull' : NULL ∉ rest.map Prod.fst := fun h => hnull (List.mem_cons_of_mem _ h)
          rcases List.nodup_cons.mp hnodup with ⟨hnew, hrest⟩
          have hfuel' := Nat.le_of_succ_le_succ hfuel
          have hnode := hchain.1
          by_cases hs : e.2 = NULL
          · have hstr : strings (e :: rest) = strings rest := by
              unfold strings
              rw [List.map_cons, List.filter_cons_of_neg (by simpa using hs)]
            have hstep : Shell.freeStrings (fuel + 1) (headOr NULL ((e :: rest).map Prod.fst)) t =
                Shell.freeStrings fuel (headOr NULL (rest.map Prod.fst)) t := by
              apply (freeStrings_succ hne).trans
              rw [hnode]
              dsimp only
              rw [if_neg (not_not_intro hs)]
            rw [hstep]
            rw [hstr] at hstrings hsize howns ⊢
            exact ih fuel hfuel' hchain.2 hrest hnull' hstrings hsize howns hfrees
          · have hstr : strings (e :: rest) = e.2 :: strings rest := by
              unfold strings
              rw [List.map_cons, List.filter_cons_of_pos (by simpa using hs)]
            rw [hstr] at hstrings hsize howns ⊢
            rcases List.nodup_cons.mp hstrings with ⟨hsnew, hsrest⟩
            have hown := hsize e.2 List.mem_cons_self
            have hfreed : (t.freemem e.2 ((t.str e.2).length + 1)).Owns
                ((strings rest).map t.strBlock ++ mine) :=
              howns.freemem (Nat.succ_pos _) (by have := hown.2; omega)
            have hsizes : ∀ a, a ≠ e.2 → allocatedSize (t.freemem e.2
                ((t.str e.2).length + 1)).memcalls a = allocatedSize t.memcalls a :=
              fun a ha => allocatedSize_freed fun h => ha h.symm
            generalize hu : (t.freemem e.2 ((t.str e.2).length + 1)).setNode e.1
              { str := NULL, prev := headOr NULL (rest.map Prod.fst), next := next } = u
            have hstep : Shell.freeStrings (fuel + 1) (headOr NULL ((e :: rest).map Prod.fst)) t =
                Shell.freeStrings fuel (headOr NULL (rest.map Prod.fst)) u := by
              apply (freeStrings_succ hne).trans
              rw [hnode, ← hu]
              dsimp only
              rw [if_pos hs]
            have hchain' : HistoryChain u.node e.1 rest := by
              rw [← hu]
              apply hchain.2.congr
              intro a ha
              exact upd_of_ne fun h => hnew (h ▸ ha)
            have honly : OnlyFreed t u := by
              rw [← hu]
              exact ⟨rfl, rfl, rfl, rfl⟩
            have hblock : u.strBlock = t.strBlock := by
              rw [← hu]
              rfl
            have hu₁ : u.Owns ((strings rest).map u.strBlock ++ mine) := by
              rw [hblock, ← hu]
              exact hfreed
            have hu₂ : FreesMatch u.memcalls := by
              rw [← hu]
              exact ⟨hown.1, hfrees⟩
            have hu₃ : ∀ s ∈ strings rest, u.OwnSize s := by
              intro s hmem
              have hsz := hsize s (List.mem_cons_of_mem _ hmem)
              rw [← hu]
              refine ⟨?_, hsz.2⟩
              exact (hsizes s fun h => hsnew (h ▸ hmem)).trans hsz.1
            rcases ih fuel hfuel' hchain' hrest hnull' hsrest hu₃ hu₁ hu₂ with
              ⟨honly', howns', hfrees', hother⟩
            rw [hstep]
            refine ⟨honly.trans honly', howns', hfrees', ?_⟩
            intro a ha
            rw [hother a fun h => ha (List.mem_cons_of_mem _ h), ← hu]
            exact hsizes a fun h => ha (h ▸ List.mem_cons_self)

/-!
## The invariant
-/

/-- The block of the nodes at the given addresses. -/
def arrayBlock : List Nat → List Span
  | [] => []
  | a :: rest => [blockOf a (STRLIST_SIZE * (a :: rest).length)]

/-- The nodes and strings of the history in memory: {lit}`qs` are the strings of the first
nodes, newest first, and the other nodes have none. -/
structure HistoryOk (t : Shell) (lines : List (List Char)) (l : List (Nat × Nat))
    (qs : List Nat) : Prop where
  length : l.length = t.val EV_CMDHIST
  small : l.length ≤ CMDHIST_MAX
  first : t.cmdhistory = headOr NULL (l.map Prod.fst)
  chain : HistoryChain t.node NULL l
  nodup : (l.map Prod.fst).Nodup
  null : NULL ∉ l.map Prod.fst
  strs : l.map Prod.snd = qs ++ List.replicate (l.length - qs.length) NULL
  full : NULL ∉ qs
  texts : qs.map t.str = lines.take l.length
  sizes : ∀ s ∈ qs, t.OwnSize s
  array : ∀ a ∈ (l.map Prod.fst).head?,
    allocatedSize t.memcalls a = some (STRLIST_SIZE * l.length)
  owns : t.Owns (qs.map t.strBlock ++ arrayBlock (l.map Prod.fst))
  frees : FreesMatch t.memcalls

theorem arrayBlock_start {as : List Nat} : (arrayBlock as).map Span.start = as.head?.toList := by
  cases as with
  | nil => rfl
  | cons a rest => rfl

theorem strBlock_start (t : Shell) (qs : List Nat) : (qs.map t.strBlock).map Span.start = qs := by
  rw [List.map_map]
  exact List.map_id qs

theorem HistoryOk.le (h : HistoryOk t lines l qs) : qs.length ≤ l.length := by
  have hlen := congrArg List.length h.texts
  rw [List.length_map, List.length_take] at hlen
  omega

/-- The invariant says what the history promises. -/
theorem HistoryOk.kept (h : HistoryOk t lines l qs) : HistoryKept t lines := by
  refine ⟨⟨l, h.length, h.first, h.chain, h.nodup, h.null, ?_⟩, h.frees⟩
  have hsnd : l.map (fun e => t.line e.2) = (l.map Prod.snd).map t.line := by
    rw [List.map_map]
    rfl
  have hfull : qs.map t.line = (qs.map t.str).map some := by
    rw [List.map_map]
    apply List.map_congr_left
    intro s hs
    have hne : s ≠ NULL := fun he => h.full (he ▸ hs)
    exact if_neg hne
  have hlen := congrArg List.length h.texts
  rw [List.length_map, List.length_take] at hlen
  rw [hsnd, h.strs, List.map_append, hfull, h.texts, List.map_replicate, List.take_append,
    List.map_take, List.length_map, List.take_replicate]
  congr 2
  omega

/-- A string goes in at the front: what its list and the strings are then. -/
theorem pushed_strs {a k m : Nat} (hk : k = m - qs.length) (hle : qs.length ≤ m) :
    (a :: (qs ++ List.replicate k NULL)).take m =
      (a :: qs).take m ++ List.replicate (m - ((a :: qs).take m).length) NULL := by
  rw [← List.cons_append, List.take_append, List.take_replicate, List.length_take,
    List.length_cons]
  congr 2
  omega

theorem packed_strs {k : Nat} (hfull : NULL ∉ qs) :
    (qs ++ List.replicate k NULL).Pairwise fun s s' => s = NULL → s' = NULL := by
  apply List.pairwise_append.mpr
  refine ⟨?_, ?_, ?_⟩
  · apply List.pairwise_of_forall_mem_list
    intro s hs s' _ (he : s = NULL)
    exact absurd (he ▸ hs) hfull
  · apply List.pairwise_of_forall_mem_list
    intro s _ s' hs' _
    exact List.eq_of_mem_replicate hs'
  · intro s hs s' _ (he : s = NULL)
    exact absurd (he ▸ hs) hfull

theorem map_snd_zip_take (as bs : List Nat) (h : as.length ≤ bs.length) :
    (as.zip bs).map Prod.snd = bs.take as.length := by
  induction as generalizing bs with
  | nil => rfl
  | cons a as ih =>
      cases bs with
      | nil => cases h
      | cons b bs => exact congrArg (List.cons b) (ih bs (Nat.le_of_succ_le_succ h))

/-- The last of a list that is not empty, and what comes before it. -/
theorem take_lastOr (a : Nat) (ss : List Nat) :
    (a :: ss).take ss.length ++ [lastOr a ss] = a :: ss := by
  induction ss generalizing a with
  | nil => rfl
  | cons s rest ih => exact congrArg (List.cons a) (ih s)

/-- A history as it is before the string that its nodes have no room for is freed: {lit}`ss` are
the strings, newest first. -/
structure HistoryPushed (t : Shell) (lines : List (List Char)) (l : List (Nat × Nat))
    (ss : List Nat) : Prop where
  length : l.length = t.val EV_CMDHIST
  small : l.length ≤ CMDHIST_MAX
  first : t.cmdhistory = headOr NULL (l.map Prod.fst)
  chain : HistoryChain t.node NULL l
  nodup : (l.map Prod.fst).Nodup
  null : NULL ∉ l.map Prod.fst
  strs : l.map Prod.snd = ss.take l.length ++
    List.replicate (l.length - (ss.take l.length).length) NULL
  full : NULL ∉ ss
  distinct : ss.Nodup
  texts : ss.map t.str = lines.take (l.length + 1)
  sizes : ∀ s ∈ ss, t.OwnSize s
  array : ∀ a ∈ (l.map Prod.fst).head?,
    a ∉ ss ∧ allocatedSize t.memcalls a = some (STRLIST_SIZE * l.length)
  owns : t.Owns (ss.map t.strBlock ++ arrayBlock (l.map Prod.fst))
  frees : FreesMatch t.memcalls

/-- If there is room for all strings, nothing is to be freed. -/
theorem HistoryPushed.fits {ss : List Nat} (h : HistoryPushed t lines l ss)
    (hroom : ss.length ≤ l.length) : HistoryOk t lines l ss := by
  have hall : ss.take l.length = ss := List.take_of_length_le hroom
  have hstrs := h.strs
  have htexts := congrArg (List.take l.length) h.texts
  rw [hall] at hstrs
  rw [← List.map_take, hall, List.take_take, Nat.min_eq_left (Nat.le_succ _)] at htexts
  constructor
  · exact h.length
  · exact h.small
  · exact h.first
  · exact h.chain
  · exact h.nodup
  · exact h.null
  · exact hstrs
  · exact h.full
  · exact htexts
  · exact h.sizes
  · exact fun b hb => (h.array b hb).2
  · exact h.owns
  · exact h.frees

/-- The string that is left over is freed under its size. -/
theorem HistoryPushed.drop {q : Nat} (h : HistoryPushed t lines l (qs ++ [q]))
    (hlen : qs.length = l.length) :
    HistoryOk (t.freemem q ((t.str q).length + 1)) lines l qs := by
  have hq : q ∈ qs ++ [q] := List.mem_append_right _ List.mem_cons_self
  have hsub : ∀ s ∈ qs, s ∈ qs ++ [q] := fun s hs => List.mem_append_left _ hs
  have htake : (qs ++ [q]).take l.length = qs := List.take_left' hlen
  have hqnew : q ∉ qs := by
    have hdistinct := h.distinct
    rw [List.nodup_append] at hdistinct
    exact fun hmem => hdistinct.2.2 q hmem q List.mem_cons_self rfl
  have hstrs := h.strs
  have htexts := congrArg (List.take l.length) h.texts
  rw [htake] at hstrs
  rw [← List.map_take, htake, List.take_take, Nat.min_eq_left (Nat.le_succ _)] at htexts
  have hother : ∀ b, b ≠ q → allocatedSize (t.freemem q ((t.str q).length + 1)).memcalls b =
      allocatedSize t.memcalls b := fun b hb => allocatedSize_freed fun he => hb he.symm
  constructor
  · exact h.length
  · exact h.small
  · exact h.first
  · exact h.chain
  · exact h.nodup
  · exact h.null
  · exact hstrs
  · exact fun hmem => h.full (hsub NULL hmem)
  · exact htexts
  · intro s hs
    refine ⟨?_, (h.sizes s (hsub s hs)).2⟩
    exact (hother s fun he => hqnew (he ▸ hs)).trans (h.sizes s (hsub s hs)).1
  · intro b hb
    exact (hother b fun he => (h.array b hb).1 (he ▸ hq)).trans (h.array b hb).2
  · apply Shell.Owns.freemem _ (Nat.succ_pos _) (by have := (h.sizes q hq).2; omega)
    have hperm : ((qs ++ [q]).map t.strBlock ++ arrayBlock (l.map Prod.fst)).Perm
        (t.strBlock q :: (qs.map t.strBlock ++ arrayBlock (l.map Prod.fst))) := by
      rw [List.map_append, List.append_assoc]
      exact List.perm_middle
    exact h.owns.perm hperm
  · exact ⟨(h.sizes q hq).1, h.frees⟩

/-- The strings after a new one has been copied into its block. -/
theorem strBlock_copied {u : Shell} {a : Nat} {buf : List Char} (ha : u.str a = buf)
    (hstr : ∀ s ∈ qs, u.str s = t.str s) :
    (a :: qs).map u.strBlock = blockOf a (buf.length + 1) :: qs.map t.strBlock := by
  rw [List.map_cons]
  unfold Shell.strBlock
  rw [ha]
  congr 1
  apply List.map_congr_left
  intro s hs
  rw [hstr s hs]

/-- A new line is copied into a block of its own, its string goes to the first node, and each
other node takes over the string of the one before it. -/
theorem HistoryOk.push (h : HistoryOk t lines l qs) {buf : List Char}
    (hbuf : buf.length < 2147483647) (hok : (t.getmem (buf.length + 1)).1 ≠ uint32 SYSERR)
    (hnul : NULLCH ∉ buf) :
    ∃ v l' a, t.cmdhistoryadd buf buf.length =
        (if lastOr a (l.map Prod.snd) ≠ NULL then
          Shell.freemem v (lastOr a (l.map Prod.snd))
            ((v.str (lastOr a (l.map Prod.snd))).length + 1)
        else v) ∧
      l'.length = l.length ∧ HistoryPushed v (buf :: lines) l' (a :: qs) := by
  have hlen : uint32 (buf.length + 1) = buf.length + 1 := by
    unfold uint32
    omega
  have hcopy : cstring (buf.take buf.length) = buf := by
    unfold cstring
    rw [List.take_length, List.takeWhile_eq_self_iff]
    intro c hc
    exact decide_eq_true fun he => hnul (he ▸ hc)
  rcases h.owns.getmem (Nat.succ_pos buf.length) (by omega) hok with ⟨a, m, hget, howns⟩
  have hstarts := howns.starts
  rw [List.map_cons, List.map_append, strBlock_start, arrayBlock_start] at hstarts
  rcases List.nodup_cons.mp hstarts with ⟨hfresh, hrest⟩
  have hfreshq : a ∉ qs := fun hmem => hfresh (List.mem_append_left _ hmem)
  have hne : a ≠ NULL := Nat.ne_of_gt (howns.bounds List.mem_cons_self).1
  have hfull : NULL ∉ a :: qs := by
    intro hmem
    rcases List.mem_cons.mp hmem with he | hmem
    · exact hne he.symm
    · exact h.full hmem
  -- the state with the copy
  generalize hu : (Shell.setStr { t.setXinu (t.xinu.setMem m) with
    memcalls := .got a (buf.length + 1) :: t.memcalls } a buf) = u
  have hadd : t.cmdhistoryadd buf buf.length =
      if (Shell.bump CMDHIST_MAX u.cmdhistory a u).1 ≠ NULL then
        (Shell.bump CMDHIST_MAX u.cmdhistory a u).2.freemem
          (Shell.bump CMDHIST_MAX u.cmdhistory a u).1
          (((Shell.bump CMDHIST_MAX u.cmdhistory a u).2.str
            (Shell.bump CMDHIST_MAX u.cmdhistory a u).1).length + 1)
      else (Shell.bump CMDHIST_MAX u.cmdhistory a u).2 := by
    unfold Shell.cmdhistoryadd
    rw [hlen, hcopy, hget, ← hu]
  have hustr : ∀ s ∈ qs, u.str s = t.str s := by
    intro s hs
    rw [← hu]
    exact upd_of_ne fun he => hfreshq (he ▸ hs)
  have hua : u.str a = buf := by
    rw [← hu]
    exact upd_self
  have huchain : HistoryChain u.node NULL l := by
    rw [← hu]
    exact h.chain
  have hufirst : u.cmdhistory = headOr NULL (l.map Prod.fst) := by
    rw [← hu]
    exact h.first
  have huval : u.val EV_CMDHIST = t.val EV_CMDHIST := by
    rw [← hu]
    rfl
  have hucalls : u.memcalls = .got a (buf.length + 1) :: t.memcalls := by
    rw [← hu]
    rfl
  have huowns : u.Owns ((a :: qs).map u.strBlock ++ arrayBlock (l.map Prod.fst)) := by
    rw [strBlock_copied hua hustr, ← hu]
    exact howns
  -- the strings move
  have hpacked : (a :: l.map Prod.snd).Pairwise fun s s' => s = NULL → s' = NULL := by
    rw [h.strs, ← List.cons_append]
    exact packed_strs hfull
  rcases bump_spec CMDHIST_MAX h.small huchain h.nodup h.null hpacked with
    ⟨node', hbump, hchain', _⟩
  rw [← hufirst] at hbump
  rw [hbump] at hadd
  generalize hl' : (l.map Prod.fst).zip (a :: l.map Prod.snd) = l' at hchain'
  have hfst : l'.map Prod.fst = l.map Prod.fst := by
    rw [← hl']
    apply List.map_fst_zip
    rw [List.length_cons, List.length_map, List.length_map]
    exact Nat.le_succ _
  have hlength : l'.length = l.length := by
    have hlen := congrArg List.length hfst
    rwa [List.length_map, List.length_map] at hlen
  refine ⟨_, l', a, hadd, hlength, ?_⟩
  constructor
  · exact hlength.trans (h.length.trans huval.symm)
  · rw [hlength]
    exact h.small
  · rw [hfst]
    exact hufirst
  · exact hchain'
  · rw [hfst]
    exact h.nodup
  · rw [hfst]
    exact h.null
  · have hle : (l.map Prod.fst).length ≤ (a :: l.map Prod.snd).length := by
      rw [List.length_cons, List.length_map, List.length_map]
      exact Nat.le_succ _
    rw [hlength, ← pushed_strs rfl h.le, ← h.strs, ← hl', map_snd_zip_take _ _ hle,
      List.length_map]
  · exact hfull
  · exact List.nodup_cons.mpr ⟨hfreshq, (List.nodup_append.mp hrest).1⟩
  · rw [List.map_cons, hlength, List.take_succ_cons]
    exact congrArg₂ List.cons hua ((List.map_congr_left hustr).trans h.texts)
  · intro s hs
    unfold Shell.OwnSize
    change allocatedSize u.memcalls s = some ((u.str s).length + 1) ∧ (u.str s).length < 2147483647
    rw [hucalls]
    rcases List.mem_cons.mp hs with rfl | hs
    · rw [hua]
      exact ⟨if_pos rfl, hbuf⟩
    · rw [hustr s hs, allocatedSize_got fun he : a = s => hfreshq (he ▸ hs)]
      exact h.sizes s hs
  · rw [hfst, hlength]
    intro b hb
    have hmem : b ∈ (l.map Prod.fst).head?.toList := Option.mem_toList.mpr hb
    have hba : a ≠ b := fun he => hfresh (List.mem_append_right _ (he ▸ hmem))
    refine ⟨fun hin => ?_, ?_⟩
    · rcases List.mem_cons.mp hin with he | hin
      · exact hba he.symm
      · exact (List.nodup_append.mp hrest).2.2 b hin b hmem rfl
    · change allocatedSize u.memcalls b = _
      rw [hucalls, allocatedSize_got hba]
      exact h.array b hb
  · rw [hfst]
    exact huowns.congr rfl rfl
  · change FreesMatch u.memcalls
    rw [hucalls]
    exact h.frees

/-- A line is added: the newest strings are kept, and the one that is left over, if any, is
freed under its size. -/
theorem HistoryOk.add (h : HistoryOk t lines l qs) {buf : List Char}
    (hbuf : buf.length < 2147483647) (hok : (t.getmem (buf.length + 1)).1 ≠ uint32 SYSERR)
    (hnul : NULLCH ∉ buf) :
    ∃ l' qs', HistoryOk (t.cmdhistoryadd buf buf.length) (buf :: lines) l' qs' := by
  rcases h.push hbuf hok hnul with ⟨v, l', a, hadd, hlength, hpushed⟩
  rw [hadd]
  by_cases hroom : qs.length < l.length
  · -- the last node had no string
    have hlast : lastOr a (l.map Prod.snd) = NULL := by
      obtain ⟨k, hk⟩ : ∃ k, l.length - qs.length = k + 1 := ⟨l.length - qs.length - 1, by omega⟩
      rw [h.strs, hk, List.replicate_succ', ← List.append_assoc, lastOr_append_singleton]
    rw [hlast, if_neg (not_not_intro rfl)]
    exact ⟨l', a :: qs, hpushed.fits (by rw [hlength]; exact hroom)⟩
  · -- the string of the last node, or the new one when there is no node, is left over
    have heq : qs.length = l.length := by
      have hle := h.le
      omega
    have hstrs : l.map Prod.snd = qs := by
      rw [h.strs, heq, Nat.sub_self, List.replicate_zero, List.append_nil]
    have hsplit := take_lastOr a qs
    rw [hstrs]
    rw [← hsplit] at hpushed
    have hne : lastOr a qs ≠ NULL := fun he =>
      hpushed.full (he ▸ List.mem_append_right _ List.mem_cons_self)
    rw [if_pos hne]
    refine ⟨l', (a :: qs).take qs.length, hpushed.drop ?_⟩
    rw [List.length_take, List.length_cons, hlength]
    omega

theorem strings_eq (h : HistoryOk t lines l qs) : strings l = qs := by
  unfold strings
  rw [h.strs, List.filter_append]
  have hqs : qs.filter (fun s => s ≠ NULL) = qs := by
    apply List.filter_eq_self.mpr
    intro s hs
    exact decide_eq_true fun he => h.full (he ▸ hs)
  have hnone : (List.replicate (l.length - qs.length) NULL).filter (fun s => s ≠ NULL) = [] := by
    apply List.filter_eq_nil_iff.mpr
    intro s hs hne
    exact of_decide_eq_true hne (List.eq_of_mem_replicate hs)
  rw [hqs, hnone, List.append_nil]

/-- A history that is given up frees all that it has, under the sizes it asked for. -/
theorem HistoryOk.del (h : HistoryOk t lines l qs) (hne : t.val EV_CMDHIST ≠ 0) :
    t.cmdhistorydel.cmdhistory = NULL ∧ t.cmdhistorydel.Owns [] ∧
      FreesMatch t.cmdhistorydel.memcalls := by
  cases hl : l with
  | nil =>
      have hlen := h.length
      rw [hl] at hlen
      exact absurd hlen.symm hne
  | cons e rest =>
      have hnull := h.null
      have hfirst : t.cmdhistory = headOr NULL (l.map Prod.fst) := h.first
      have hstarts := h.owns.starts
      have harray := h.array
      have howns := h.owns
      rw [List.map_append, strBlock_start, arrayBlock_start] at hstarts
      have hstr := strings_eq h
      rw [← hstr] at hstarts howns
      have hsizes : ∀ s ∈ strings l, t.OwnSize s := hstr ▸ h.sizes
      rcases freeStrings_spec CMDHIST_MAX h.small h.chain h.nodup h.null
        (List.nodup_append.mp hstarts).1 hsizes howns h.frees with ⟨honly, howns', hfrees', hother⟩
      rw [← hfirst] at honly howns' hfrees' hother
      generalize hu : Shell.freeStrings CMDHIST_MAX t.cmdhistory t = u at honly howns' hfrees' hother
      rw [hl] at hfirst hnull harray howns' hother hstarts
      have hcmd : t.cmdhistory = e.1 := hfirst
      have hhead : e.1 ≠ NULL := fun he => hnull (he ▸ List.mem_cons_self)
      have hcount : uint32 (STRLIST_SIZE * u.val EV_CMDHIST) =
          STRLIST_SIZE * (e :: rest).length := by
        have hval : u.val EV_CMDHIST = (e :: rest).length := by
          rw [← hl, h.length]
          exact congrFun honly.envtab EV_CMDHIST
        have hsmall := h.small
        rw [hl] at hsmall
        rw [hval]
        unfold uint32 STRLIST_SIZE
        unfold CMDHIST_MAX at hsmall
        omega
      have hdel : t.cmdhistorydel =
          (u.freemem e.1 (STRLIST_SIZE * (e :: rest).length)).setCmdhistory NULL := by
        unfold Shell.cmdhistorydel
        rw [if_pos (hcmd ▸ hhead)]
        dsimp only
        rw [hu, honly.cmdhistory, hcmd, hcount]
      have hsmall := h.small
      rw [hl] at hsmall
      rw [hdel]
      refine ⟨rfl, ?_, ?_, hfrees'⟩
      · apply Shell.Owns.congr (t := u.freemem e.1 (STRLIST_SIZE * (e :: rest).length)) _ rfl rfl
        apply Shell.Owns.freemem _ (by unfold STRLIST_SIZE; simp)
          (by unfold STRLIST_SIZE; unfold CMDHIST_MAX at hsmall; omega)
        simpa [arrayBlock] using howns'
      · show allocatedSize u.memcalls e.1 = _
        rw [hother e.1]
        · exact harray e.1 rfl
        · intro hmem
          exact (List.nodup_append.mp hstarts).2.2 e.1 hmem e.1 List.mem_cons_self rfl

/-- Without nodes there is nothing to keep. -/
theorem historyOk_none (hval : t.val EV_CMDHIST = 0) (hcmd : t.cmdhistory = NULL)
    (howns : t.Owns []) (hfrees : FreesMatch t.memcalls) (lines : List (List Char)) :
    HistoryOk t lines [] [] where
  length := hval.symm
  small := Nat.zero_le _
  first := hcmd
  chain := trivial
  nodup := List.nodup_nil
  null := List.not_mem_nil
  strs := rfl
  full := List.not_mem_nil
  texts := rfl
  sizes := fun s hs => absurd hs List.not_mem_nil
  array := fun a ha => by cases ha
  owns := howns
  frees := hfrees

/-- Setting the length to what it is, or to none. -/
theorem HistoryOk.set (h : HistoryOk t lines l qs) {v : Nat} (hv : v = t.val EV_CMDHIST ∨ v = 0) :
    ∃ l' qs', HistoryOk (t.setCmdhist v) lines l' qs' := by
  by_cases hsame : t.val EV_CMDHIST = v
  · have heq : t.setCmdhist v = t.setXinu (t.xinu.ret OK) := by
      unfold Shell.setCmdhist
      rw [if_neg (not_not_intro hsame)]
    rw [heq]
    exact ⟨l, qs, { h with }⟩
  · have hz : v = 0 := hv.resolve_left fun he => hsame he.symm
    have hne : t.val EV_CMDHIST ≠ 0 := hz ▸ hsame
    rcases h.del hne with ⟨hcmd, howns, hfrees⟩
    have heq : t.setCmdhist v = t.cmdhistorydel.setXinu
        ((t.cmdhistorydel.xinu.setEnv EV_CMDHIST 0).ret OK) := by
      unfold Shell.setCmdhist
      rw [if_pos hsame, hz]
      dsimp only
      rw [if_neg (not_not_intro rfl)]
    have hnone : HistoryOk (t.cmdhistorydel.setXinu
        ((t.cmdhistorydel.xinu.setEnv EV_CMDHIST 0).ret OK)) lines [] [] := by
      apply historyOk_none
      · show upd t.cmdhistorydel.xinu.envtab EV_CMDHIST 0 EV_CMDHIST = 0
        exact upd_self
      · exact hcmd
      · exact howns.congr rfl rfl
      · exact hfrees
    rw [heq]
    exact ⟨[], [], hnone⟩

/-!
## Runs
-/

/-- The command sets {lit}`cmdhistory` to what the text stands for. -/
theorem xshSet_history {args : List (List Char)} {text : List Char}
    (h : historyText args = some text) :
    t.xshSet args = some (t.setCmdhist (Shell.setval EV_CMDHIST (copied text EV_MAX_VAL_LEN))) := by
  unfold historyText at h
  split at h
  · split at h
    · rename_i hargs
      cases h
      rcases hargs with ⟨rfl, rfl, rfl⟩
      have hasked : asked ["set".toList, "cmdhistory".toList, "=".toList, text] =
          some (EV_CMDHIST, copied text EV_MAX_VAL_LEN) := by
        have hfind : Shell.findvar "cmdhistory".toList = some EV_CMDHIST := by decide
        show (if strncmp "=".toList ['='] 1 = 0 then (Shell.findvar "cmdhistory".toList).map
          fun i => (i, copied text EV_MAX_VAL_LEN) else none) = _
        rw [if_pos (by decide), hfind]
        rfl
      rw [xshSet_eq, hasked]
      rfl
    · cases h
  · cases h

theorem owns_of_reach (h : Reach Heap.step HeapCalls FreshHeap t.heap) : t.Owns [] := by
  have hok : ∀ u, Reach Heap.step HeapCalls FreshHeap u → ∃ L, HeapOk u L := by
    intro u hu
    apply hu.invariant
    · exact fun u hu => heapOk_fresh hu
    · intro u c u' _ hok henv hstep
      rcases hok with ⟨L, hok⟩
      exact hok.step henv hstep
  rcases hok t.heap h with ⟨L, hok⟩
  refine ⟨[], L, ?_⟩
  rw [List.append_nil, List.append_nil]
  exact hok

theorem historyOk_start (ht : ShellStarts t) : ∃ l, HistoryOk t [] l [] := by
  rcases ht with ⟨t₀, hreach, hval, hcalls, hok, rfl⟩
  rcases (owns_of_reach hreach).getmem (by decide) (by decide) hok with ⟨addr, m, hget, howns⟩
  have hbounds := howns.bounds List.mem_cons_self
  have hinit : t₀.cmdhistoryinit = Shell.cmdhistoryinitLoop 4 addr NULL
      (Shell.setCmdhistory { t₀.setXinu (t₀.xinu.setMem m) with
        memcalls := .got addr (STRLIST_SIZE * 5) :: t₀.memcalls } addr) := by
    unfold Shell.cmdhistoryinit
    rw [hval, if_pos (by decide), hget]
    dsimp only
    rw [if_neg]
    intro he
    have hsize : roundmb (STRLIST_SIZE * 5) = 64 := by decide
    have hstop : addr + roundmb (STRLIST_SIZE * 5) < 4294967296 := hbounds.2
    rw [hsize, he] at hstop
    exact absurd hstop (by decide)
  rcases initLoop_spec 4 addr NULL (Shell.setCmdhistory { t₀.setXinu (t₀.xinu.setMem m) with
    memcalls := .got addr (STRLIST_SIZE * 5) :: t₀.memcalls } addr) with ⟨node', heq, hchain, _⟩
  rw [hinit, heq]
  refine ⟨newNodes 5 addr, ?_⟩
  constructor
  · exact hval.symm
  · exact (newNodes_length 5 addr).trans_le (by decide)
  · rfl
  · exact hchain
  · exact newNodes_nodup 5 addr
  · intro hmem
    exact absurd (newNodes_le hmem) (Nat.not_le.mpr hbounds.1)
  · exact newNodes_snd 5 addr
  · exact List.not_mem_nil
  · rfl
  · exact fun s hs => absurd hs List.not_mem_nil
  · intro a ha
    cases ha
    exact if_pos rfl
  · exact howns.congr rfl rfl
  · show FreesMatch t₀.memcalls
    rw [hcalls]
    trivial

theorem HistoryOk.step (h : HistoryOk t lines l qs) {c : ShellCall} (henv : HistoryCalls t c)
    (hkeep : LengthKept t c) (hstep : t.step c = some t') :
    ∃ l' qs', HistoryOk t' (noteLine lines t c t') l' qs' := by
  cases c with
  | set args =>
      change (if t.inUser then t.xshSet args else none) = some t' at hstep
      split at hstep
      · cases htext : historyText args with
        | none => exact absurd htext henv
        | some text =>
            rw [xshSet_history htext] at hstep
            cases hstep
            exact h.set (hkeep text htext)
      · cases hstep
  | add buf =>
      change (if t.inUser then some (t.cmdhistoryadd buf buf.length) else none) = some t' at hstep
      split at hstep
      · cases hstep
        exact h.add henv.1 henv.2 hkeep
      · cases hstep
  | kernel l => cases henv
  | heap c =>
      have howns := h.owns.heap henv hstep
      rcases Option.map_eq_some_iff.mp hstep with ⟨u, _, rfl⟩
      exact ⟨l, qs, { h with owns := howns }⟩

/-- The shell starts, and no line has been added. -/
def HistoryStarts (t : Shell × List (List Char)) : Prop := ShellStarts t.1 ∧ t.2 = []

/-- In every run in which the length is kept or given up, the history is as it should be. -/
theorem history_kept {t : Shell × List (List Char)}
    (h : Reach (observed Shell.step noteLine)
      (fun t l => HistoryCalls t.1 l ∧ LengthKept t.1 l)
      HistoryStarts t) : HistoryKept t.1 t.2 := by
  have hok : ∃ l qs, HistoryOk t.1 t.2 l qs := by
    apply h.invariant
    · rintro t ⟨hstart, hnil⟩
      rcases historyOk_start hstart with ⟨l, hok⟩
      rw [hnil]
      exact ⟨l, [], hok⟩
    · intro t l t' _ hok henv hstep
      rcases hok with ⟨nodes, qs, hok⟩
      rcases observed_eq hstep with ⟨hs, hrecord⟩
      rw [hrecord]
      exact hok.step henv.1 henv.2 hs
  rcases hok with ⟨l, qs, hok⟩
  exact hok.kept

end

/-- A shell on a fresh heap, before it makes its history. -/
def freshShell : Shell := sampleShell.setXinu (sampleBoot.setMem sampleMem.meminit)

theorem shellStarts_fresh : ShellStarts freshShell.cmdhistoryinit := by
  have hfresh : FreshHeap freshShell.heap :=
    ⟨sampleMem, by decide, by decide, by decide, by decide, by decide, rfl⟩
  exact ⟨freshShell, .init hfresh, by decide +kernel, rfl, by decide +kernel, rfl⟩

theorem ShellStarts.history {t : Shell} (ht : ShellStarts t) : HistoryStarts (t, []) := ⟨ht, rfl⟩

instance (t : Shell) (l : ShellCall) : Decidable (HistoryCalls t l) := by
  induction l using ShellCall.casesOn <;> unfold HistoryCalls <;> infer_instance

instance (t : Shell) (l : ShellCall) : Decidable (LengthKept t l) := by
  induction l using ShellCall.casesOn <;> unfold LengthKept <;> infer_instance

/-- Six lines, so that the oldest is freed. -/
theorem history_kept_full :
    ∃ t : Shell × List (List Char), ((∃ a, t.1.memcalls.head? = some (.freed a 4)) ∧
      t.1.line (t.1.node t.1.cmdhistory).str = some "echo".toList) ∧ HistoryKept t.1 t.2 := by
  have hrun : ∃ t, Reach (observed Shell.step noteLine)
      (fun t l => HistoryCalls t.1 l ∧ LengthKept t.1 l)
      HistoryStarts t ∧
      (t.1.memcalls.head? = some (.freed 0x2040 4) ∧
        t.1.line (t.1.node t.1.cmdhistory).str = some "echo".toList) :=
    exists_reach_of_follow (observed Shell.step noteLine)
      (fun t l => HistoryCalls t.1 l ∧ LengthKept t.1 l)
      (s := (freshShell.cmdhistoryinit, [])) shellStarts_fresh.history
      [.add "set".toList, .add "memstat".toList, .heap (.getmem 0 48),
        setCommand "cmdhistory" "5", .add "ps".toList, .add "date".toList, .add "cat".toList,
        .add "echo".toList]
      (fun t => t.1.memcalls.head? = some (.freed 0x2040 4) ∧
        t.1.line (t.1.node t.1.cmdhistory).str = some "echo".toList) (by decide +kernel)
  rcases hrun with ⟨t, ht, hfreed, hline⟩
  exact ⟨t, ⟨⟨_, hfreed⟩, hline⟩, history_kept ht⟩

/-- The list for a history of three is built with five nodes. -/
theorem history_outgrown :
    ¬ ∀ t : Shell × List (List Char),
      Reach (observed Shell.step noteLine) (fun t => HistoryCalls t.1)
        HistoryStarts t → HistoryKept t.1 t.2 := by
  intro hall
  have hrun : ∃ t, Reach (observed Shell.step noteLine) (fun t => HistoryCalls t.1)
      HistoryStarts t ∧ (t.1.val EV_CMDHIST = 3 ∧
        (t.1.node (t.1.node (t.1.node t.1.cmdhistory).prev).prev).prev ≠ NULL) :=
    exists_reach_of_follow (observed Shell.step noteLine) (fun t => HistoryCalls t.1)
      (s := (freshShell.cmdhistoryinit, [])) shellStarts_fresh.history
      [setCommand "cmdhistory" "3"]
      (fun t => t.1.val EV_CMDHIST = 3 ∧
        (t.1.node (t.1.node (t.1.node t.1.cmdhistory).prev).prev).prev ≠ NULL) (by decide +kernel)
  rcases hrun with ⟨t, ht, hval, hlonger⟩
  rcases (hall t ht).list with ⟨l, hlen, hfirst, hchain, _⟩
  rw [hval] at hlen
  match l, hlen with
  | [e₁, e₂, e₃], _ =>
      rcases hchain with ⟨h₁, h₂, h₃, _⟩
      have hsecond : (t.1.node e₁.1).prev = e₂.1 := congrArg Strlist.prev h₁
      have hthird : (t.1.node e₂.1).prev = e₃.1 := congrArg Strlist.prev h₂
      have hend : (t.1.node e₃.1).prev = NULL := congrArg Strlist.prev h₃
      apply hlonger
      rw [hfirst, List.map_cons, headOr_cons, hsecond, hthird, hend]

end BbbXinu
