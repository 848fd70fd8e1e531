import Mathlib

/-!
# Choosing one of many by comparing two at a time

A program that looks for the best of a sequence keeps a champion and lets each
candidate challenge it.  When the comparison is a linear order the result is the
maximum.  A comparison made of several criteria need not be one: here only a
first part of it, the rank, is, and what follows between candidates of equal rank
may be any relation.

`rank_le_of_champion` says what holds of every such comparison.  If on the
candidates of the best rank the comparison is total and transitive, the champion
beats every other candidate (`beats_of_champion`), and then the order of the
challenges does not matter (`champion_perm`).
-/

namespace EvansComputer

variable {α R : Type*} [LinearOrder R]

/-- One challenge of the champion so far. -/
def challenge (beats : α → α → Bool) (best : Option α) (c : α) : Option α :=
  match best with
  | none => some c
  | some b => if beats c b then some c else some b

/-- Who is left after every candidate has challenged. -/
def champion (beats : α → α → Bool) (l : List α) : Option α := l.foldl (challenge beats) none

/-- A comparison that the rank decides, where it can. -/
structure Ranked (beats : α → α → Bool) (rank : α → R) : Prop where
  wins : ∀ {a b}, rank a < rank b → beats a b
  loses : ∀ {a b}, rank b < rank a → beats a b = false

/-- The elements of a list with the best rank. -/
def IsTop (rank : α → R) (l : List α) (a : α) : Prop := a ∈ l ∧ ∀ b ∈ l, rank a ≤ rank b

theorem IsTop.rank_eq {rank : α → R} {l : List α} {a b : α} (ha : IsTop rank l a)
    (hb : IsTop rank l b) : rank a = rank b :=
  le_antisymm (ha.2 b hb.1) (hb.2 a ha.1)

/-- A comparison that is a strict linear order on the best candidates. -/
structure Decides (beats : α → α → Bool) (rank : α → R) (l : List α) : Prop where
  total : ∀ {a b}, IsTop rank l a → IsTop rank l b → a ≠ b → beats a b ∨ beats b a
  trans : ∀ {a b c}, IsTop rank l a → IsTop rank l b → IsTop rank l c → beats a b →
    beats b c → beats a c

variable {beats : α → α → Bool} {rank : α → R} {l : List α} {r : α}

/-- The state of the search after the challenges `done`. -/
structure Leads (beats : α → α → Bool) (rank : α → R) (l done : List α) (b : α) : Prop where
  mem : b ∈ done
  rank_le : ∀ c ∈ done, rank b ≤ rank c
  wins : Decides beats rank l → IsTop rank l b → ∀ c ∈ done, IsTop rank l c → c ≠ b → beats b c

section

variable (hr : Ranked beats rank)
include hr

theorem Leads.next {done : List α} {b : α} (h : Leads beats rank l done b)
    (hsub : done ⊆ l) (c : α) :
    ∃ b', challenge beats (some b) c = some b' ∧ Leads beats rank l (done ++ [c]) b' := by
  unfold challenge
  dsimp only
  by_cases hwin : beats c b = true
  · have hle : rank c ≤ rank b := by
      by_contra hlt
      rw [hr.loses (not_le.mp hlt)] at hwin
      cases hwin
    refine ⟨c, if_pos hwin, List.mem_append_right _ List.mem_cons_self, ?_, ?_⟩
    · intro d hd
      rcases List.mem_append.mp hd with hd | hd
      · exact hle.trans (h.rank_le d hd)
      · rw [List.mem_singleton.mp hd]
    · intro hdec hc d hd hdtop hne
      rcases List.mem_append.mp hd with hd | hd
      · -- The old champion has the best rank too, as it was not behind `d`.
        have hb : IsTop rank l b :=
          ⟨hsub h.mem, fun a ha => (h.rank_le d hd).trans (hdtop.2 a ha)⟩
        by_cases hdb : d = b
        · rw [hdb]
          exact hwin
        · exact hdec.trans hc hb hdtop hwin (h.wins hdec hb d hd hdtop hdb)
      · exact absurd (List.mem_singleton.mp hd) hne
  · have hle : rank b ≤ rank c := by
      by_contra hlt
      exact hwin (hr.wins (not_le.mp hlt))
    refine ⟨b, if_neg hwin, List.mem_append_left _ h.mem, ?_, ?_⟩
    · intro d hd
      rcases List.mem_append.mp hd with hd | hd
      · exact h.rank_le d hd
      · rw [List.mem_singleton.mp hd]
        exact hle
    · intro hdec hb d hd hdtop hne
      rcases List.mem_append.mp hd with hd | hd
      · exact h.wins hdec hb d hd hdtop hne
      · rw [List.mem_singleton.mp hd] at hdtop hne ⊢
        exact (hdec.total hb hdtop hne.symm).resolve_right hwin

theorem Leads.all {done todo : List α} {b : α} (h : Leads beats rank (done ++ todo) done b) :
    ∃ b', todo.foldl (challenge beats) (some b) = some b' ∧
      Leads beats rank (done ++ todo) (done ++ todo) b' := by
  induction todo generalizing done b with
  | nil =>
    rw [List.append_nil] at h ⊢
    exact ⟨b, rfl, h⟩
  | cons c todo ih =>
    obtain ⟨b', hb', hleads⟩ := h.next hr (List.subset_append_left _ _) c
    have hsplit : done ++ c :: todo = (done ++ [c]) ++ todo := by
      rw [List.append_assoc, List.singleton_append]
    rw [List.foldl_cons, hb', hsplit]
    exact ih (hsplit ▸ hleads)

/-- A search among some candidates finds one, which leads them all. -/
theorem exists_champion (hl : l ≠ []) :
    ∃ b, champion beats l = some b ∧ Leads beats rank l l b := by
  cases l with
  | nil => exact absurd rfl hl
  | cons c todo =>
    have hfirst : Leads beats rank ([c] ++ todo) [c] c := by
      refine ⟨List.mem_cons_self, ?_, ?_⟩
      · intro d hd
        rw [List.mem_singleton.mp hd]
      · intro _ _ d hd _ hne
        exact absurd (List.mem_singleton.mp hd) hne
    exact hfirst.all hr

theorem leads_of_champion (h : champion beats l = some r) : Leads beats rank l l r := by
  have hl : l ≠ [] := by
    rintro rfl
    cases h
  obtain ⟨b, hb, hleads⟩ := exists_champion hr hl
  cases hb.symm.trans h
  exact hleads

theorem mem_of_champion (h : champion beats l = some r) : r ∈ l :=
  (leads_of_champion hr h).mem

theorem rank_le_of_champion (h : champion beats l = some r) :
    ∀ c ∈ l, rank r ≤ rank c := (leads_of_champion hr h).rank_le

/-- **The champion beats every other candidate.** -/
theorem beats_of_champion (hdec : Decides beats rank l) (h : champion beats l = some r) :
    ∀ c ∈ l, c ≠ r → beats r c := by
  intro c hc hne
  have hleads := leads_of_champion hr h
  have htop : IsTop rank l r := ⟨hleads.mem, hleads.rank_le⟩
  rcases lt_or_eq_of_le (hleads.rank_le c hc) with hlt | heq
  · exact hr.wins hlt
  · exact hleads.wins hdec htop c hc ⟨hc, fun d hd => heq ▸ hleads.rank_le d hd⟩ hne

/-- **The order of the challenges does not matter.** -/
theorem champion_perm {l' : List α} (hdec : Decides beats rank l)
    (hasymm : ∀ a b, beats a b → beats b a = false) (hperm : l'.Perm l) :
    champion beats l' = champion beats l := by
  cases hl : l with
  | nil =>
    rw [hl] at hperm
    rw [hperm.eq_nil]
  | cons c todo =>
    rw [← hl]
    have hne : l ≠ [] := hl ▸ List.cons_ne_nil c todo
    have hne' : l' ≠ [] := fun h => hne (List.nil_perm.mp (h ▸ hperm))
    obtain ⟨r, hchampion, -⟩ := exists_champion hr hne
    obtain ⟨r', hchampion', hleads'⟩ := exists_champion hr hne'
    rw [hchampion, hchampion']
    by_contra hdiff
    have hrr : r' ≠ r := fun h => hdiff (congrArg some h)
    have hdec' : Decides beats rank l' := by
      have htop {a : α} (h : IsTop rank l' a) : IsTop rank l a :=
        ⟨hperm.subset h.1, fun b hb => h.2 b (hperm.symm.subset hb)⟩
      exact ⟨fun ha hb => hdec.total (htop ha) (htop hb),
        fun ha hb hc => hdec.trans (htop ha) (htop hb) (htop hc)⟩
    have hwin : beats r r' :=
      beats_of_champion hr hdec hchampion r' (hperm.subset hleads'.mem) hrr
    have hwin' : beats r' r := beats_of_champion hr hdec' hchampion' r
      (hperm.symm.subset (mem_of_champion hr hchampion)) hrr.symm
    rw [hasymm _ _ hwin] at hwin'
    cases hwin'

end

end EvansComputer
