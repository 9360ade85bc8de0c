import BbbXinu.Invariant.FreeList
import BbbXinu.Lib.Searches

/-!
# What the searches choose

{lit}`getmem` looks at the blocks from the front and in first fit stops at the first
that is large enough.  {lit}`getstk` looks at all blocks from the back, and in first
fit every block that is large enough takes the place of the one before.
-/

namespace BbbXinu

open LinkedLists Choices

/-- The block lies below the other or is the same. -/
def Lower (b c : Span) : Prop := b.start ≤ c.start

def Higher (b c : Span) : Prop := c.start ≤ b.start

def Smaller (b c : Span) : Prop := b.size ≤ c.size

instance : IsPreorder Span Lower where
  refl := fun _ => Nat.le_refl _
  trans := fun _ _ _ hab hbc => Nat.le_trans hab hbc

instance : IsPreorder Span Smaller where
  refl := fun _ => Nat.le_refl _
  trans := fun _ _ _ hab hbc => Nat.le_trans hab hbc

/-- How the searches write down a candidate: no block has address zero. -/
def addressOf (o : Option Span) : Nat := (o.map Span.start).getD 0

/-- The block that the search of {lit}`getmem` ends with. -/
def getmemFound (r : Option (Nat × Nat) × Nat) : Nat := (r.1.map Prod.snd).getD r.2

section

variable {gap n : Nat} {m : Mem} {l₁ l₂ L : List Span} {b : Span} {o : Option Span}
  {r : Span → Span → Prop}

/-- What has been seen, once the next block from the front has. -/
theorem Sought.front (h : Sought (fun c => n ≤ c.size) r (b :: l₁) o) :
    Sought (fun c => n ≤ c.size) r (l₁ ++ [b]) o :=
  h.congr fun c => by simp [or_comm]

theorem getmemScan_first (h : m.FreeList gap (l₁ ++ l₂)) (fuel : Nat) (hfuel : l₂.length ≤ fuel)
    (hlow : Sought (fun c => n ≤ c.size) Lower l₁ none) :
    ∃ o, Sought (fun c => n ≤ c.size) Lower (l₁ ++ l₂) o ∧
      getmemFound (m.getmemScan MEMALLOC_FIRSTFIT n fuel (lastOr m.memlist (l₁.map Span.start))
        (headOr m.memlist (l₂.map Span.start)) 0) = addressOf o := by
  induction l₂ generalizing l₁ fuel with
  | nil =>
      refine ⟨none, by rwa [List.append_nil], ?_⟩
      cases fuel with
      | zero => rfl
      | succ fuel =>
          unfold Mem.getmemScan
          rw [if_neg (fun hne => hne rfl)]
          rfl
  | cons b l₂ ih =>
      cases fuel with
      | zero => exact absurd hfuel (Nat.not_succ_le_zero _)
      | succ fuel =>
          obtain ⟨hmem, hsize, hne, hnext, hprev⟩ := h.at_block
          have hsplit := List.append_cons l₁ b l₂
          have hfound : n ≤ b.size →
              Sought (fun c => n ≤ c.size) Lower (l₁ ++ b :: l₂) (some b) := by
            intro hle
            refine ⟨hmem, hle, ?_⟩
            intro c hc hpass
            cases List.mem_append.mp hc with
            | inl hc => exact absurd hpass (hlow c hc)
            | inr hc =>
                cases List.mem_cons.mp hc with
                | inl hc => exact hc ▸ refl_of Lower c
                | inr hc =>
                    have hab := (spaced_cons.mp h.spaced.of_append_right).2.2 c hc
                    unfold Span.stop at hab
                    unfold Lower
                    omega
          show ∃ o, _ ∧ getmemFound (m.getmemScan MEMALLOC_FIRSTFIT n (fuel + 1) _ b.start 0) = _
          unfold Mem.getmemScan
          rw [if_pos hne, hnext, hsize]
          by_cases hexact : b.size = n
          · rw [if_pos hexact]
            exact ⟨some b, hfound (Nat.le_of_eq hexact.symm), rfl⟩
          rw [if_neg hexact]
          by_cases hlarger : n < b.size
          · rw [if_pos hlarger]
            dsimp only
            rw [if_pos rfl, if_pos (Or.inl rfl)]
            exact ⟨some b, hfound (Nat.le_of_lt hlarger), rfl⟩
          · rw [if_neg hlarger]
            have hrest := ih (show m.FreeList gap ((l₁ ++ [b]) ++ l₂) from hsplit ▸ h) fuel
              (Nat.le_of_succ_le_succ hfuel) (Sought.front (hlow.skip (by omega)))
            rwa [hprev, ← hsplit] at hrest

theorem getmemScan_best (h : m.FreeList gap (l₁ ++ l₂)) {alloc : Nat}
    (halloc : alloc ≠ MEMALLOC_FIRSTFIT) (fuel : Nat) (hfuel : l₂.length ≤ fuel)
    (hbest : Sought (fun c => n ≤ c.size) Smaller l₁ o) :
    ∃ o', Sought (fun c => n ≤ c.size) Smaller (l₁ ++ l₂) o' ∧
      getmemFound (m.getmemScan alloc n fuel (lastOr m.memlist (l₁.map Span.start))
        (headOr m.memlist (l₂.map Span.start)) (addressOf o)) = addressOf o' := by
  induction l₂ generalizing l₁ o fuel with
  | nil =>
      refine ⟨o, by rwa [List.append_nil], ?_⟩
      cases fuel with
      | zero => rfl
      | succ fuel =>
          unfold Mem.getmemScan
          rw [if_neg (fun hne => hne rfl)]
          rfl
  | cons b l₂ ih =>
      cases fuel with
      | zero => exact absurd hfuel (Nat.not_succ_le_zero _)
      | succ fuel =>
          obtain ⟨hmem, hsize, hne, hnext, hprev⟩ := h.at_block
          have hsplit := List.append_cons l₁ b l₂
          have hrest := fun o' (ho : Sought (fun c => n ≤ c.size) Smaller (b :: l₁) o') =>
            ih (show m.FreeList gap ((l₁ ++ [b]) ++ l₂) from hsplit ▸ h) fuel
              (Nat.le_of_succ_le_succ hfuel) (Sought.front ho)
          rw [hprev, ← hsplit] at hrest
          show ∃ o', _ ∧ getmemFound (m.getmemScan alloc n (fuel + 1) _ b.start _) = _
          unfold Mem.getmemScan
          rw [if_pos hne, hnext, hsize]
          by_cases hexact : b.size = n
          · rw [if_pos hexact]
            refine ⟨some b, ⟨hmem, Nat.le_of_eq hexact.symm, ?_⟩, rfl⟩
            exact fun c _ hpass => Nat.le_trans (Nat.le_of_eq hexact) hpass
          rw [if_neg hexact]
          by_cases hlarger : n < b.size
          · rw [if_pos hlarger]
            dsimp only
            rw [if_neg halloc]
            cases o with
            | none =>
                rw [if_pos (show addressOf none = 0 ∨ _ from Or.inl rfl)]
                exact hrest (some b) (hbest.replace (Nat.le_of_lt hlarger) fun c hc => by cases hc)
            | some c =>
                have hc : c ∈ l₁ ++ b :: l₂ := List.mem_append_left _ hbest.mem
                have hcsize : (m.block (addressOf (some c))).mlength = c.size := h.size c hc
                have hcne : addressOf (some c) ≠ 0 := Nat.ne_of_gt (h.pos c hc)
                rw [hcsize]
                by_cases hsmaller : b.size < c.size
                · rw [if_pos (Or.inr hsmaller)]
                  apply hrest (some b) (hbest.replace (Nat.le_of_lt hlarger) ?_)
                  intro d hd
                  cases hd
                  exact Nat.le_of_lt hsmaller
                · rw [if_neg (not_or.mpr ⟨hcne, hsmaller⟩)]
                  exact hrest (some c) (hbest.keep (Nat.le_of_not_lt hsmaller))
          · rw [if_neg hlarger]
            exact hrest o (hbest.skip (by omega))

theorem getstkScan_first (h : m.FreeList gap (l₁ ++ l₂)) (fitsprev fuel : Nat)
    (hfuel : l₁.length ≤ fuel) (hfits : Sought (fun c => n ≤ c.size) Lower l₂ o) :
    ∃ o', Sought (fun c => n ≤ c.size) Lower (l₁ ++ l₂) o' ∧
      (m.getstkScan MEMALLOC_FIRSTFIT n fuel (headOr m.memlist (l₂.map Span.start))
        (lastOr m.memlist (l₁.map Span.start)) (addressOf o) fitsprev).1 = addressOf o' := by
  induction l₁ using List.reverseRecOn generalizing l₂ o fitsprev fuel with
  | nil =>
      refine ⟨o, hfits, ?_⟩
      cases fuel with
      | zero => rfl
      | succ fuel =>
          unfold Mem.getstkScan
          rw [if_neg fun hne => hne rfl]
  | append_singleton l₁ b ih =>
      cases fuel with
      | zero => simp at hfuel
      | succ fuel =>
          have hlength : l₁.length ≤ fuel := by simpa using hfuel
          rw [← List.append_cons] at h ⊢
          obtain ⟨-, hsize, hne, -, hcurr⟩ := h.at_block
          have hprev : (m.block b.start).mprev = _ := h.neighbours.1
          rw [hcurr]
          unfold Mem.getstkScan
          rw [if_pos hne, hprev, hsize]
          dsimp only
          by_cases hle : n ≤ b.size
          · rw [if_pos ⟨hle, Or.inl rfl⟩]
            apply ih h _ fuel hlength (hfits.replace hle ?_)
            rintro c rfl
            have hab := (spaced_cons.mp h.spaced.of_append_right).2.2 c hfits.mem
            unfold Span.stop at hab
            unfold Lower
            omega
          · rw [if_neg fun htake => hle htake.1]
            exact ih h _ fuel hlength (hfits.skip hle)

theorem getstkScan_best (h : m.FreeList gap (l₁ ++ l₂)) {alloc : Nat}
    (halloc : alloc ≠ MEMALLOC_FIRSTFIT) (fitsprev fuel : Nat)
    (hfuel : l₁.length ≤ fuel) (hfits : Sought (fun c => n ≤ c.size) Smaller l₂ o) :
    ∃ o', Sought (fun c => n ≤ c.size) Smaller (l₁ ++ l₂) o' ∧
      (m.getstkScan alloc n fuel (headOr m.memlist (l₂.map Span.start))
        (lastOr m.memlist (l₁.map Span.start)) (addressOf o) fitsprev).1 = addressOf o' := by
  induction l₁ using List.reverseRecOn generalizing l₂ o fitsprev fuel with
  | nil =>
      refine ⟨o, hfits, ?_⟩
      cases fuel with
      | zero => rfl
      | succ fuel =>
          unfold Mem.getstkScan
          rw [if_neg fun hne => hne rfl]
  | append_singleton l₁ b ih =>
      cases fuel with
      | zero => simp at hfuel
      | succ fuel =>
          have hlength : l₁.length ≤ fuel := by simpa using hfuel
          rw [← List.append_cons] at h ⊢
          obtain ⟨-, hsize, hne, -, hcurr⟩ := h.at_block
          have hprev : (m.block b.start).mprev = _ := h.neighbours.1
          rw [hcurr]
          unfold Mem.getstkScan
          rw [if_pos hne, hprev, hsize]
          dsimp only
          by_cases hle : n ≤ b.size
          · cases o with
            | none =>
                rw [if_pos ⟨hle, Or.inr (Or.inl rfl)⟩]
                exact ih h _ fuel hlength (hfits.replace hle fun c hc => by cases hc)
            | some c =>
                have hc : c ∈ l₁ ++ b :: l₂ :=
                  List.mem_append_right _ (List.mem_cons_of_mem b hfits.mem)
                have hcsize : (m.block (addressOf (some c))).mlength = c.size := h.size c hc
                have hcne : addressOf (some c) ≠ 0 := Nat.ne_of_gt (h.pos c hc)
                rw [hcsize]
                by_cases hsmaller : b.size = n ∨ b.size < c.size
                · rw [if_pos ⟨hle, Or.inr (Or.inr hsmaller)⟩]
                  apply ih h _ fuel hlength (hfits.replace hle ?_)
                  intro d hd
                  cases hd
                  have hcn := hfits.pass
                  unfold Smaller
                  omega
                · rw [if_neg fun htake => (htake.2.resolve_left halloc).elim hcne hsmaller]
                  apply ih h _ fuel hlength (hfits.keep ?_)
                  unfold Smaller
                  omega
          · rw [if_neg fun htake => hle htake.1]
            exact ih h _ fuel hlength (hfits.skip hle)

end

end BbbXinu
