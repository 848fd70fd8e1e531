import EvansComputer.Tel.Coding

/-!
# Cutting a text

The parts of a text are the text again one behind the other, and none is over the limit.
-/

namespace EvansComputer.Tel.Sms

/-! ## Cutting -/

/-- The parts of a text, as many as there are. -/
def cuts (enc : Encoding) (multi : ℕ) : List Char → ℕ → List Char → List (List Char × ℕ)
  | part, used, [] => [(part, used)]
  | part, used, c :: text =>
    if used + cost enc c > multi then (part, used) :: cuts enc multi [c] (cost enc c) text
    else cuts enc multi (part ++ [c]) (used + cost enc c) text

/-- The limits of a text that is one part, and of a part of several. -/
def singleLimit (enc : Encoding) : ℕ := if enc = .gsm7 then 160 else 70
def multiLimit (enc : Encoding) : ℕ := if enc = .gsm7 then 153 else 67

/-- How many parts a text needs. -/
def needs (text : List Char) : ℕ :=
  if costs (encodingOf text) text ≤ singleLimit (encodingOf text) then 1
  else (cuts (encodingOf text) (multiLimit (encodingOf text)) [] 0 text).length

theorem cuts_ne_nil (enc : Encoding) (multi : ℕ) (part : List Char) (used : ℕ) (text : List Char) :
    cuts enc multi part used text ≠ [] := by
  induction text generalizing part used with
  | nil => exact List.cons_ne_nil _ _
  | cons c text ih =>
    rw [cuts]
    split
    · exact List.cons_ne_nil _ _
    · exact ih _ _

/-- No part is dropped where there are few enough. -/
theorem chunkFrom_eq_cuts {enc : Encoding} {multi n : ℕ} {part : List Char} {used : ℕ}
    {text : List Char} (h : (cuts enc multi part used text).length ≤ n) :
    chunkFrom enc multi n part used text = cuts enc multi part used text := by
  induction text generalizing n part used with
  | nil => cases n <;> rfl
  | cons c text ih =>
    rw [cuts] at h ⊢
    rw [chunkFrom]
    split at h
    · rename_i hover
      rw [List.length_cons] at h
      have hpos := List.length_pos_of_ne_nil (cuts_ne_nil enc multi [c] (cost enc c) text)
      rw [if_pos hover, if_pos hover, if_neg (by omega), ih (by omega)]
    · rename_i hfits
      rw [if_neg hfits, if_neg hfits, ih h]

theorem costs_append (enc : Encoding) (s t : List Char) :
    costs enc (s ++ t) = costs enc s + costs enc t := by
  unfold costs
  rw [List.map_append, List.sum_append]

theorem costs_singleton (enc : Encoding) (c : Char) : costs enc [c] = cost enc c := Nat.add_zero _

theorem cost_le (enc : Encoding) (c : Char) : cost enc c ≤ 2 := by
  unfold cost gsm7Cost lenUtf16
  split
  · cases gsm7Lookup c with
    | none => decide
    | some s =>
      rw [Option.map_some, Option.getD_some]
      split <;> decide
  · split <;> decide

/-- **The parts are the text**, and none is over the limit. -/
theorem cuts_spec {enc : Encoding} {multi : ℕ} (hmulti : 2 ≤ multi) {part : List Char} {used : ℕ}
    (hused : used = costs enc part) (hle : used ≤ multi) (text : List Char) :
    (cuts enc multi part used text).flatMap (·.1) = part ++ text ∧
      ∀ p ∈ cuts enc multi part used text, p.2 = costs enc p.1 ∧ p.2 ≤ multi := by
  induction text generalizing part used with
  | nil =>
    refine ⟨by rw [cuts, List.flatMap_cons, List.flatMap_nil], fun p hp => ?_⟩
    rw [List.mem_singleton.mp hp]
    exact ⟨hused, hle⟩
  | cons c text ih =>
    rw [cuts]
    split
    · obtain ⟨htext, hparts⟩ := ih (costs_singleton enc c).symm ((cost_le enc c).trans hmulti)
      refine ⟨by rw [List.flatMap_cons, htext, List.singleton_append], fun p hp => ?_⟩
      rcases List.mem_cons.mp hp with rfl | hp
      · exact ⟨hused, hle⟩
      · exact hparts p hp
    · rename_i hfits
      have hused' : used + cost enc c = costs enc (part ++ [c]) := by
        rw [costs_append, costs_singleton, hused]
      obtain ⟨htext, hparts⟩ := ih hused' (by omega)
      exact ⟨by rw [htext, List.append_assoc, List.singleton_append], hparts⟩

theorem chunk_of_le {text : List Char}
    (h : costs (encodingOf text) text ≤ singleLimit (encodingOf text)) :
    chunk text = (encodingOf text, singleLimit (encodingOf text),
      [(text, costs (encodingOf text) text)]) := if_pos h

theorem chunk_of_not_le {text : List Char}
    (h : ¬ costs (encodingOf text) text ≤ singleLimit (encodingOf text)) :
    chunk text = (encodingOf text, multiLimit (encodingOf text),
      chunkFrom (encodingOf text) (multiLimit (encodingOf text)) 255 [] 0 text) :=
  if_neg h

/-- What the parts of a text are. -/
theorem chunk_spec {text : List Char} (h : needs text ≤ 255) :
    (chunk text).2.2.length = needs text ∧ (chunk text).2.2.flatMap (·.1) = text ∧
      ∀ p ∈ (chunk text).2.2, p.2 = costs (encodingOf text) p.1 ∧
        p.2 ≤ if (chunk text).2.2.length = 1 then singleLimit (encodingOf text)
          else multiLimit (encodingOf text) := by
  unfold needs at h ⊢
  by_cases hone : costs (encodingOf text) text ≤ singleLimit (encodingOf text)
  · rw [if_pos hone, chunk_of_le hone]
    refine ⟨rfl, List.append_nil text, fun p hp => ?_⟩
    rw [List.mem_singleton.mp hp]
    exact ⟨rfl, hone⟩
  · rw [if_neg hone] at h ⊢
    rw [chunk_of_not_le hone]
    dsimp only
    rw [chunkFrom_eq_cuts h]
    have hmulti : 2 ≤ multiLimit (encodingOf text) := by unfold multiLimit; split <;> decide
    have hlimits : multiLimit (encodingOf text) ≤ singleLimit (encodingOf text) := by
      unfold multiLimit singleLimit
      split <;> decide
    obtain ⟨htext, hparts⟩ := @cuts_spec (encodingOf text) _ hmulti [] 0 rfl (Nat.zero_le _) text
    refine ⟨rfl, htext, fun p hp => ⟨(hparts p hp).1, ?_⟩⟩
    have hle := (hparts p hp).2
    split
    · exact hle.trans hlimits
    · exact hle

end EvansComputer.Tel.Sms
