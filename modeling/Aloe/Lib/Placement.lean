import Mathlib.Data.Set.Card

/-!
# Placing a vector on a grid

A mapper goes through the cells of a grid, and writes to each of them an entry of its input vector
or a zero. A demapper goes through the same cells in the same order, and copies what it finds back
to the entries. Both follow one list, the `Placement`: which cell is met, and which entry belongs
there, `none` for a zero. `scatter` is the mapper and `gather` the demapper.

A cell keeps what was written to it last, and an entry what was read for it last. The `Home` of an
entry is a cell where it is in both respects: an entry that has one comes back from the grid, unless
somebody else writes to its home.
-/

namespace Aloe.Lib

open Function List

variable {δ σ α : Type}

abbrev Placement (δ σ : Type) : Type := List (δ × Option σ)

namespace Placement

section Definitions

variable [DecidableEq δ] [DecidableEq σ] [Zero α]

/-- The mapper: the entries of `x` to their cells on the grid `g`, and the zeros. -/
def scatter (ws : Placement δ σ) (x : σ → α) (g : δ → α) : δ → α :=
  ws.foldl (fun g w => update g w.1 (w.2.elim 0 x)) g

/-- The demapper: what the cells of `g` hold to their entries in the buffer `b`. -/
def gather (ws : Placement δ σ) (g : δ → α) (b : σ → α) : σ → α :=
  ws.foldl (fun b w => w.2.elim b fun s => update b s (g w.1)) b

def cells (ws : Placement δ σ) : List δ := ws.map Prod.fst

def entries (ws : Placement δ σ) : List σ := ws.filterMap Prod.snd

end Definitions

lemma mem_cells {ws : Placement δ σ} {d : δ} : d ∈ ws.cells ↔ ∃ o, (d, o) ∈ ws := by
  simp [cells]

lemma mem_entries {ws : Placement δ σ} {s : σ} : s ∈ ws.entries ↔ ∃ d, (d, some s) ∈ ws := by
  simp [entries]

@[simp] lemma cells_append (ws vs : Placement δ σ) : cells (ws ++ vs) = ws.cells ++ vs.cells :=
  map_append

@[simp] lemma entries_append (ws vs : Placement δ σ) :
    entries (ws ++ vs) = ws.entries ++ vs.entries :=
  filterMap_append

lemma same_of_nodup {ws : Placement δ σ} (hnodup : ws.cells.Nodup) {d : δ} {o o' : Option σ}
    (h : (d, o) ∈ ws) (h' : (d, o') ∈ ws) : o' = o :=
  congrArg Prod.snd (inj_on_of_nodup_map hnodup h' h rfl)

/-! ## The mapper -/

section Scatter

variable [DecidableEq δ] [Zero α] {ws vs : Placement δ σ} {x : σ → α} {g : δ → α} {d : δ}

lemma scatter_append : scatter (ws ++ vs) x g = vs.scatter x (ws.scatter x g) := foldl_append

variable {o : Option σ}

lemma scatter_concat : scatter (ws ++ [(d, o)]) x g = update (ws.scatter x g) d (o.elim 0 x) :=
  scatter_append

lemma foldl_scatter {ι : Type} (l : List ι) (f : ι → Placement δ σ) :
    l.foldl (fun g i => (f i).scatter x g) g = scatter (l.flatMap f) x g := by
  rw [scatter, foldl_flatMap]
  rfl

/-- **Frame.** A cell that is not met keeps its value. -/
theorem scatter_of_notMem (hd : d ∉ ws.cells) : ws.scatter x g d = g d := by
  induction ws using List.reverseRecOn with
  | nil => rfl
  | append_singleton ws w ih =>
    rw [cells_append, mem_append, not_or] at hd
    obtain ⟨d', o⟩ := w
    rw [scatter_concat, update_of_ne fun h => hd.2 (by simp [cells, h])]
    exact ih hd.1

lemma scatter_of_last (hd : d ∉ vs.cells) : scatter (ws ++ (d, o) :: vs) x g d = o.elim 0 x := by
  rw [append_cons, scatter_append, scatter_of_notMem hd, scatter_concat, update_self]

lemma exists_last (hd : d ∈ ws.cells) : ∃ us o vs, ws = us ++ (d, o) :: vs ∧ d ∉ cells vs := by
  induction ws with
  | nil => cases hd
  | cons w ws ih =>
    by_cases hlater : d ∈ cells ws
    · obtain ⟨us, o, vs, rfl, hvs⟩ := ih hlater
      exact ⟨w :: us, o, vs, rfl, hvs⟩
    · obtain ⟨d', o⟩ := w
      obtain rfl : d = d' := by
        rcases mem_cons.mp hd with h | h
        · exact h
        · exact absurd h hlater
      exact ⟨[], o, ws, rfl, hlater⟩

lemma scatter_of_same (hmem : (d, o) ∈ ws)
    (hsame : ∀ o', (d, o') ∈ ws → o' = o) : ws.scatter x g d = o.elim 0 x := by
  obtain ⟨us, o', vs, rfl, hvs⟩ := exists_last (mem_cells.mpr ⟨o, hmem⟩)
  obtain rfl := hsame o' (by simp)
  exact scatter_of_last hvs

lemma scatter_of_nodup (hnodup : ws.cells.Nodup) (hmem : (d, o) ∈ ws) :
    ws.scatter x g d = o.elim 0 x :=
  scatter_of_same hmem fun _ h => same_of_nodup hnodup hmem h

end Scatter

/-! ## The demapper -/

section Gather

variable [DecidableEq σ] {ws vs : Placement δ σ} {g : δ → α} {b : σ → α} {s : σ}

lemma gather_append : gather (ws ++ vs) g b = vs.gather g (ws.gather g b) := foldl_append

lemma foldl_gather {ι : Type} (l : List ι) (f : ι → Placement δ σ) :
    l.foldl (fun b i => (f i).gather g b) b = gather (l.flatMap f) g b := by
  rw [gather, foldl_flatMap]
  rfl

lemma gather_of_notMem (hs : s ∉ ws.entries) : ws.gather g b s = b s := by
  induction ws using List.reverseRecOn with
  | nil => rfl
  | append_singleton ws w ih =>
    rw [entries_append, mem_append, not_or] at hs
    obtain ⟨d, o⟩ := w
    rw [gather_append]
    cases o with
    | none => exact ih hs.1
    | some s' =>
      show update (gather ws g b) s' (g d) s = b s
      rw [update_of_ne fun h => hs.2 (by simp [entries, h])]
      exact ih hs.1

lemma gather_of_last {d : δ} (hs : s ∉ vs.entries) :
    gather (ws ++ (d, some s) :: vs) g b s = g d := by
  rw [append_cons, gather_append, gather_of_notMem hs, gather_append]
  exact update_self ..

end Gather

/-! ## Homes -/

/-- The cell `d` is the home of entry `s`: the entry is read there last, and nothing is written
there after it. -/
def Home (ws : Placement δ σ) (s : σ) (d : δ) : Prop :=
  ∃ us vs, ws = us ++ (d, some s) :: vs ∧ d ∉ cells vs ∧ s ∉ entries vs

section Homes

variable {us ws vs : Placement δ σ} {s : σ} {d : δ}

section

variable (h : ws.Home s d)
include h

lemma Home.append_left : Home (us ++ ws) s d := by
  obtain ⟨us', vs, rfl, hd, hs⟩ := h
  exact ⟨us ++ us', vs, (append_assoc ..).symm, hd, hs⟩

lemma Home.append_right (hd : d ∉ vs.cells) (hs : s ∉ vs.entries) : Home (ws ++ vs) s d := by
  obtain ⟨us, vs', rfl, hd', hs'⟩ := h
  refine ⟨us, vs' ++ vs, by rw [append_assoc, cons_append], ?_, ?_⟩
  · rw [cells_append, mem_append, not_or]
    exact ⟨hd', hd⟩
  · rw [entries_append, mem_append, not_or]
    exact ⟨hs', hs⟩

lemma Home.mem : (d, some s) ∈ ws := by
  obtain ⟨us, vs, rfl, -⟩ := h
  simp

lemma Home.scatter_eq [DecidableEq δ] [Zero α] (x : σ → α) (g : δ → α) :
    ws.scatter x g d = x s := by
  obtain ⟨us, vs, rfl, hd, -⟩ := h
  exact scatter_of_last hd

lemma Home.gather_eq [DecidableEq σ] (g : δ → α) (b : σ → α) : ws.gather g b s = g d := by
  obtain ⟨us, vs, rfl, -, hs⟩ := h
  exact gather_of_last hs

end

end Homes

/-! ## What a mapper does to a cell -/

/-- The mapper `put` leaves entry `s` in the cell `d`, whatever the input and the grid are. -/
def Carries (put : (σ → α) → (δ → α) → δ → α) (d : δ) (s : σ) : Prop := ∀ x g, put x g d = x s

/-- The mapper `put` writes to the cell `d`. -/
def Touches (put : (σ → α) → (δ → α) → δ → α) (d : δ) : Prop := ∃ x g, put x g d ≠ g d

section Effect

variable [DecidableEq δ] [Zero α] [Nontrivial α] {ws : Placement δ σ} {d : δ} {s : σ}

lemma touches_scatter : Touches (α := α) ws.scatter d ↔ d ∈ ws.cells := by
  constructor
  · rintro ⟨x, g, h⟩
    by_contra hd
    exact h (scatter_of_notMem hd)
  · intro hd
    obtain ⟨us, o, vs, rfl, hvs⟩ := exists_last hd
    obtain ⟨a, ha⟩ := exists_ne (0 : α)
    refine ⟨fun _ => 0, fun _ => a, ?_⟩
    rw [scatter_of_last hvs]
    cases o <;> exact ha.symm

lemma carries_scatter [DecidableEq σ] :
    Carries (α := α) ws.scatter d s ↔ ∃ us vs, ws = us ++ (d, some s) :: vs ∧ d ∉ cells vs := by
  obtain ⟨a, ha⟩ := exists_ne (0 : α)
  constructor
  · intro h
    have hd : d ∈ ws.cells := by
      by_contra hd
      have := h (fun _ => 0) (fun _ => a)
      rw [scatter_of_notMem hd] at this
      exact ha this
    obtain ⟨us, o, vs, rfl, hvs⟩ := exists_last hd
    have hvalue := h (update (fun _ => 0) s a) (fun _ => 0)
    rw [scatter_of_last hvs, update_self] at hvalue
    cases o with
    | none => exact absurd hvalue.symm ha
    | some s' => grind
  · rintro ⟨us, vs, rfl, hvs⟩ x g
    exact scatter_of_last hvs

lemma notMem_of_carries [DecidableEq σ] {vs : Placement δ σ}
    (h : Carries (α := α) (scatter (ws ++ vs)) d s) (hs : s ∉ vs.entries) : d ∉ vs.cells := by
  intro hd
  obtain ⟨us, o, vs', rfl, hvs⟩ := exists_last hd
  obtain ⟨a, ha⟩ := exists_ne (0 : α)
  have hvalue := h (update (fun _ => 0) s a) (fun _ => 0)
  rw [← append_assoc, scatter_of_last hvs, update_self] at hvalue
  cases o with
  | none => exact ha hvalue.symm
  | some s' =>
    rw [Option.elim_some] at hvalue
    by_cases hs' : s' = s
    · exact hs (mem_entries.mpr ⟨d, by simp [hs']⟩)
    · rw [update_of_ne hs'] at hvalue
      exact ha hvalue.symm

lemma mem_of_carries [DecidableEq σ] (h : Carries (α := α) ws.scatter d s) : (d, some s) ∈ ws := by
  obtain ⟨us, vs, rfl, -⟩ := carries_scatter.mp h
  simp

lemma exists_carries [DecidableEq σ] (hd : d ∈ ws.cells)
    (hall : ∀ o, (d, o) ∈ ws → o.isSome) : ∃ s, Carries (α := α) ws.scatter d s := by
  obtain ⟨us, o, vs, rfl, hvs⟩ := exists_last hd
  obtain ⟨s, rfl⟩ := Option.isSome_iff_exists.mp (hall o (by simp))
  exact ⟨s, carries_scatter.mpr ⟨us, vs, rfl, hvs⟩⟩

end Effect

lemma carries_of_nodup [DecidableEq δ] [Zero α] {ws : Placement δ σ} {d : δ} {s : σ}
    (hnodup : ws.cells.Nodup) (hmem : (d, some s) ∈ ws) : Carries (α := α) ws.scatter d s :=
  fun _ _ => scatter_of_nodup hnodup hmem

end Placement

end Aloe.Lib
