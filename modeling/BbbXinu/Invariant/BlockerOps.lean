import BbbXinu.Invariant.BlockMoves

/-!
# What blocker calls do to their blocker

{lit}`View.Local` says what a call on a blocker leaves alone; the lemmas here
say what becomes of the entry and the queue of the blocker itself.
-/

namespace BbbXinu

open LinkedLists KeyedLists

namespace View

variable (g : View) (pid thisid rwb count : Int)

theorem setRwb_at (f : Rwbentry → Rwbentry) : (g.setRwb rwb f).tab rwb = f (g.tab rwb) :=
  upd_self

theorem block_queue : (g.block pid rwb).lists (rwq rwb) = g.lists (rwq rwb) ++ [pid] :=
  setList_at _ (rwq rwb) _

theorem block_tab :
    (g.block pid rwb).tab rwb = { g.tab rwb with qcount := (g.tab rwb).qcount + 1 } :=
  upd_self

theorem release_queue (after : Frame) :
    (g.release pid rwb after).lists (rwq rwb) = (g.lists (rwq rwb)).tail :=
  setList_at _ (rwq rwb) _

theorem release_tab (after : Frame) :
    (g.release pid rwb after).tab rwb = { g.tab rwb with qcount := (g.tab rwb).qcount - 1 } :=
  upd_self

theorem release_frames (after : Frame) :
    (g.release pid rwb after).frames = upd g.frames pid (after :: g.frames pid) := rfl

theorem create_tab :
    (g.create rwb count).tab rwb = { g.tab rwb with rwstate := .used, rwcount := count } := by
  unfold View.create
  rw [setRwb_at, setRwb_at]

/-- A try queues its caller or lets it in. -/
theorem tryread_cases :
    ((g.tab rwb).rwcount < 0 ∨ 0 < (g.tab rwb).qcount) ∧
        g.tryread pid rwb = (g.setFlag pid 1).block pid rwb ∨
      ¬ ((g.tab rwb).rwcount < 0 ∨ 0 < (g.tab rwb).qcount) ∧
        g.tryread pid rwb = (g.setFlag pid 1).setRwb rwb fun e =>
          { e with rwcount := e.rwcount + 1 } := by
  unfold View.tryread
  dsimp only
  split
  · rename_i h
    exact Or.inl ⟨h, rfl⟩
  · rename_i h
    exact Or.inr ⟨h, rfl⟩

theorem trywrite_cases :
    ((g.tab rwb).rwcount ≠ 0 ∨ 0 < (g.tab rwb).qcount) ∧
        g.trywrite pid rwb = (g.setFlag pid (-1)).block pid rwb ∨
      ¬ ((g.tab rwb).rwcount ≠ 0 ∨ 0 < (g.tab rwb).qcount) ∧
        g.trywrite pid rwb = (g.setFlag pid (-1)).setRwb rwb fun e =>
          { e with rwcount := e.rwcount - 1 } := by
  unfold View.trywrite
  dsimp only
  split
  · rename_i h
    exact Or.inl ⟨h, rfl⟩
  · rename_i h
    exact Or.inr ⟨h, rfl⟩

/-!
## Deletion and reset
-/

theorem deleteOne_queue :
    (g.deleteOne rwb).lists (rwq rwb) = (g.lists (rwq rwb)).tail := by
  unfold View.deleteOne
  dsimp only
  split
  · rename_i h
    exact (show g.lists (rwq rwb) = [] from h) ▸ h
  · rename_i p l h
    have hqueue : g.lists (rwq rwb) = p :: l := h
    rw [hqueue]
    exact setList_at _ (rwq rwb) l

theorem deleteLoop_queue (n : Nat) (g : View) :
    (deleteLoop rwb n g).lists (rwq rwb) = (g.lists (rwq rwb)).drop n := by
  induction n generalizing g with
  | zero => rfl
  | succ n ih =>
      show (deleteLoop rwb n (g.deleteOne rwb)).lists (rwq rwb) = _
      rw [ih, deleteOne_queue, List.drop_tail]

theorem deleteOne_tab :
    (g.deleteOne rwb).tab rwb = { g.tab rwb with qcount := (g.tab rwb).qcount - 1 } := by
  unfold View.deleteOne
  dsimp only
  split
  · exact upd_self
  · exact upd_self

theorem deleteLoop_tab (n : Nat) (g : View) :
    (deleteLoop rwb n g).tab rwb = { g.tab rwb with qcount := (g.tab rwb).qcount - n } := by
  induction n generalizing g with
  | zero =>
      show g.tab rwb = { g.tab rwb with qcount := (g.tab rwb).qcount - 0 }
      rw [Int.sub_zero]
  | succ n ih =>
      show (deleteLoop rwb n (g.deleteOne rwb)).tab rwb = _
      rw [ih, deleteOne_tab]
      have harith : (g.tab rwb).qcount - 1 - n = (g.tab rwb).qcount - (n + 1 : Nat) := by omega
      rw [harith]

theorem delete_queue : (g.delete rwb).lists (rwq rwb) =
    (g.lists (rwq rwb)).drop (g.tab rwb).qcount.toNat := by
  have hcount : ((g.setRwb rwb fun e => { e with rwstate := .free }).tab rwb).qcount =
      (g.tab rwb).qcount := by rw [setRwb_at]
  unfold View.delete
  show (deleteLoop rwb _ (g.setRwb rwb fun e => { e with rwstate := .free })).lists (rwq rwb) = _
  rw [deleteLoop_queue, hcount]
  rfl

/-- A deleted blocker is free; the last test of the loop has taken one off its
count. -/
theorem delete_tab : ((g.delete rwb).tab rwb).rwstate = .free ∧
    ((g.delete rwb).tab rwb).rwcount = 0 := by
  unfold View.delete
  dsimp only
  rw [setRwb_at, setRwb_at, deleteLoop_tab, setRwb_at]
  exact ⟨rfl, rfl⟩

/-- Whoever is not released keeps its flag. -/
theorem deleteOne_flags {p : Int} (hp : p ∉ g.lists (rwq rwb)) :
    (g.deleteOne rwb).flags p = g.flags p := by
  unfold View.deleteOne
  dsimp only
  split
  · rfl
  · rename_i pid l h
    have hqueue : g.lists (rwq rwb) = pid :: l := h
    have hne : p ≠ pid := by
      intro he
      rw [hqueue, he] at hp
      exact hp List.mem_cons_self
    exact upd_of_ne hne

theorem deleteLoop_flags {p : Int} (n : Nat) (g : View) (hp : p ∉ g.lists (rwq rwb)) :
    (deleteLoop rwb n g).flags p = g.flags p := by
  induction n generalizing g with
  | zero => rfl
  | succ n ih =>
      show (deleteLoop rwb n (g.deleteOne rwb)).flags p = _
      rw [ih, deleteOne_flags g rwb hp]
      rw [deleteOne_queue]
      exact fun h => hp (List.mem_of_mem_tail h)

theorem delete_flags {p : Int} (hp : p ∉ g.lists (rwq rwb)) :
    (g.delete rwb).flags p = g.flags p :=
  deleteLoop_flags rwb _ _ hp

theorem resetLoop_flags (l : List Int) (g : View) :
    (resetLoop rwb l g).flags = g.flags := by
  induction l generalizing g with
  | nil => rfl
  | cons pid l ih => exact ih _

theorem reset_flags : (g.reset rwb count).flags = g.flags := resetLoop_flags rwb _ g

theorem resetLoop_at (l : List Int) (g : View) (hl : g.lists (rwq rwb) = l) :
    (resetLoop rwb l g).lists (rwq rwb) = [] ∧
      (resetLoop rwb l g).tab rwb =
        { g.tab rwb with qcount := (g.tab rwb).qcount - l.length } := by
  induction l generalizing g with
  | nil =>
      refine ⟨hl, ?_⟩
      show g.tab rwb = { g.tab rwb with qcount := (g.tab rwb).qcount - 0 }
      rw [Int.sub_zero]
  | cons p l ih =>
      have hqueue : (g.resetOne rwb p l).lists (rwq rwb) = l := g.setList_at (rwq rwb) l
      have htab : (g.resetOne rwb p l).tab rwb =
          { g.tab rwb with qcount := (g.tab rwb).qcount - 1 } := upd_self
      have h := ih (g.resetOne rwb p l) hqueue
      refine ⟨h.1, ?_⟩
      show (resetLoop rwb l (g.resetOne rwb p l)).tab rwb = _
      rw [h.2, htab, List.length_cons]
      have harith : (g.tab rwb).qcount - 1 - l.length =
          (g.tab rwb).qcount - (l.length + 1 : Nat) := by omega
      rw [harith]

theorem reset_queue : (g.reset rwb count).lists (rwq rwb) = [] :=
  (resetLoop_at rwb (g.lists (rwq rwb)) g rfl).1

theorem reset_tab : (g.reset rwb count).tab rwb =
    { g.tab rwb with
      qcount := (g.tab rwb).qcount - (g.lists (rwq rwb)).length
      rwcount := count } := by
  unfold View.reset
  rw [setRwb_at, (resetLoop_at rwb (g.lists (rwq rwb)) g rfl).2]

end View

end BbbXinu
