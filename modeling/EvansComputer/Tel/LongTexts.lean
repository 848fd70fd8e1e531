import EvansComputer.Tel.Parts
import EvansComputer.Tel.Reassembly

/-!
# Long texts

A text is cut into parts that fit, each of which is read back uncut.  Where they come in any
order, the text is there at each part that completes it.
-/

namespace EvansComputer.Tel.Sms

variable {text : List Char}

/-! ## The parts of a text -/

theorem needs_pos (text : List Char) : 1 ≤ needs text := by
  unfold needs
  split
  · exact Nat.le_refl 1
  · exact List.length_pos_of_ne_nil (cuts_ne_nil _ _ _ _ _)

theorem splitText_of_one (h : needs text = 1) (reference : UInt8) :
    splitText text reference = [{ udh := [], body := .text text }] := by
  have hlen := (chunk_spec (by omega : needs text ≤ 255)).1
  unfold splitText
  exact if_pos (hlen.trans h)

/-- The parts of a text that is more than one. -/
def Sent.ofText (sender : List Char) (reference : UInt8) (text : List Char) (htwo : 2 ≤ needs text)
    (h : needs text ≤ 255) : Sent where
  sender
  reference
  texts := (chunk text).2.2.map (·.1)
  two_le := by rw [List.length_map, (chunk_spec h).1]; exact htwo
  le_max := by rw [List.length_map, (chunk_spec h).1]; exact h

section OfText

variable {text : List Char} (htwo : 2 ≤ needs text) (h : needs text ≤ 255) (sender : List Char)
    (reference : UInt8)

theorem count_ofText : (Sent.ofText sender reference text htwo h).count = needs text :=
  (List.length_map _).trans (chunk_spec h).1

theorem flatten_ofText : (Sent.ofText sender reference text htwo h).texts.flatten = text :=
  (chunk_spec h).2.1

theorem splitText_ofText :
    splitText text reference = (List.range (needs text)).map
      (Sent.ofText sender reference text htwo h).part := by
  have hlen := (chunk_spec h).1
  unfold splitText
  dsimp only
  rw [if_neg (by omega)]
  apply List.ext_getElem
  · rw [List.length_map, List.length_map, List.length_zipIdx, List.length_range, hlen]
  intro i hi hi'
  rw [List.getElem_map, List.getElem_map, List.getElem_range, List.getElem_zipIdx]
  have hi₂ : i < (chunk text).2.2.length := by
    rw [List.length_map, List.length_zipIdx] at hi
    exact hi
  have hget :
    (Sent.ofText sender reference text htwo h).texts.getD i [] = (chunk text).2.2[i].1 := by
    show ((chunk text).2.2.map (·.1)).getD i [] = _
    rw [List.getD_eq_getElem?_getD, List.getElem?_map, List.getElem?_eq_getElem hi₂,
      Option.map_some, Option.getD_some]
  unfold Sent.part
  rw [hget]
  show _ = UserData.mk
    [.concat8 reference (UInt8.ofNat (Sent.ofText sender reference text htwo h).count) _] _
  rw [count_ofText, ← hlen, Nat.zero_add]

end OfText

theorem length_splitText (h : needs text ≤ 255) (reference : UInt8) :
    (splitText text reference).length = needs text := by
  rcases Nat.lt_or_ge (needs text) 2 with hone | htwo
  · have hpos := needs_pos text
    have heq : needs text = 1 := by omega
    rw [splitText_of_one heq, heq]
    rfl
  · rw [splitText_ofText htwo h [] reference, List.length_map, List.length_range]

/-! ## Fitting -/

theorem gsm7Lookup_isSome_of_mem {t : List Char} (h : gsm7Encodable t = true) {c : Char}
    (hc : c ∈ t) : (gsm7Lookup c).isSome = true :=
  List.all_eq_true.mp h c hc

/-- A character of the default alphabet is one unit, and at most two septets. -/
theorem costs_gsm7_le {t : List Char} (h : gsm7Encodable t = true) :
    costs .gsm7 t ≤ 2 * costs .ucs2 t := by
  induction t with
  | nil => exact Nat.le_refl 0
  | cons c t ih =>
    have hrest : gsm7Encodable t = true := by
      unfold gsm7Encodable at h ⊢
      rw [List.all_cons, Bool.and_eq_true] at h
      exact h.2
    have hle := cost_le .gsm7 c
    have hpos : 1 ≤ cost .ucs2 c := by
      show 1 ≤ lenUtf16 c
      unfold lenUtf16
      split <;> decide
    have ih' := ih hrest
    show (cost .gsm7 c + costs .gsm7 t) ≤ 2 * (cost .ucs2 c + costs .ucs2 t)
    omega

theorem encodingOf_eq_gsm7 (h : gsm7Encodable text = true) : encodingOf text = .gsm7 := if_pos h

theorem encodingOf_eq_ucs2 (h : gsm7Encodable text = false) : encodingOf text = .ucs2 :=
  if_neg (by rw [h]; exact Bool.false_ne_true)

/-- **A part that is within its limit fits.**  A part of a text of units may be septets all the
same. -/
theorem fits_of_le {text t : List Char} {udh : List Ie} (hsub : ∀ c ∈ t, c ∈ text)
    (hheader : UserData.HeaderReads { udh, body := .text t })
    (hle : costs (encodingOf text) t ≤ if udh = [] then singleLimit (encodingOf text)
      else multiLimit (encodingOf text))
    (hfront : ({ udh, body := .text t } : UserData).front.length ≤ if udh = [] then 0 else 6) :
    ({ udh, body := .text t } : UserData).readBack = .ok { udh, body := .text t } ∧
      ({ udh, body := .text t } : UserData).encodeUd.2.2.1.length ≤ 140 := by
  set n := ({ udh, body := .text t } : UserData).front.length with hn
  have hseptets : UserData.headerSeptets n ≤ if udh = [] then 0 else 7 := by
    unfold UserData.headerSeptets divCeil
    by_cases hnil : udh = []
    · rw [if_pos hnil] at hfront ⊢
      omega
    · rw [if_neg hnil] at hfront ⊢
      omega
  by_cases henc : gsm7Encodable t = true
  · refine UserData.readBack_gsm7 hheader henc ?_
    rw [← hn]
    by_cases htext : gsm7Encodable text = true
    · rw [encodingOf_eq_gsm7 htext] at hle
      have hsingle : singleLimit .gsm7 = 160 := rfl
      have hmulti : multiLimit .gsm7 = 153 := rfl
      split at hle
      · rename_i hnil
        rw [if_pos hnil] at hseptets
        omega
      · rename_i hnil
        rw [if_neg hnil] at hseptets
        omega
    · rw [encodingOf_eq_ucs2 (Bool.eq_false_iff.mpr htext)] at hle
      have hsingle : singleLimit .ucs2 = 70 := rfl
      have hmulti : multiLimit .ucs2 = 67 := rfl
      have htwice := costs_gsm7_le henc
      split at hle
      · rename_i hnil
        rw [if_pos hnil] at hseptets
        omega
      · rename_i hnil
        rw [if_neg hnil] at hseptets
        omega
  · have henc' := Bool.eq_false_iff.mpr henc
    have htext : gsm7Encodable text = false := by
      refine Bool.eq_false_iff.mpr fun htext => henc ?_
      exact List.all_eq_true.mpr fun c hc => gsm7Lookup_isSome_of_mem htext (hsub c hc)
    refine UserData.readBack_ucs2 hheader henc' ?_
    rw [← hn]
    rw [encodingOf_eq_ucs2 htext] at hle
    have hsingle : singleLimit .ucs2 = 70 := rfl
    have hmulti : multiLimit .ucs2 = 67 := rfl
    split at hle
    · rename_i hnil
      rw [if_pos hnil] at hfront
      omega
    · rename_i hnil
      rw [if_neg hnil] at hfront
      omega

/-- **Every part fits**, and is read back uncut. -/
theorem splitText_fits (h : needs text ≤ 255) (reference : UInt8) :
    ∀ ud ∈ splitText text reference, ud.readBack = .ok ud ∧ ud.encodeUd.2.2.1.length ≤ 140 := by
  obtain ⟨hlen, hflat, hparts⟩ := chunk_spec h
  have hpos := needs_pos text
  intro ud hud
  rcases Nat.lt_or_ge (needs text) 2 with hone | htwo
  · have heq : needs text = 1 := by omega
    rw [splitText_of_one heq, List.mem_singleton] at hud
    subst hud
    refine fits_of_le (fun _ hc => hc) (UserData.headerReads_nil _) ?_
      (by rw [if_pos rfl]; exact Nat.zero_le 0)
    rw [if_pos rfl]
    have hsingle : costs (encodingOf text) text ≤ singleLimit (encodingOf text) := by
      obtain ⟨p, hp⟩ := List.length_eq_one_iff.mp (hlen.trans heq)
      obtain ⟨hcost, hle⟩ := hparts p (by rw [hp]; exact List.mem_singleton_self p)
      rw [hp, List.flatMap_cons, List.flatMap_nil, List.append_nil] at hflat
      rw [if_pos (hlen.trans heq), hcost, hflat] at hle
      exact hle
    exact hsingle
  · rw [splitText_ofText htwo h [] reference] at hud
    obtain ⟨i, hi, rfl⟩ := List.mem_map.mp hud
    have hi' : i < (chunk text).2.2.length := hlen ▸ List.mem_range.mp hi
    set m := Sent.ofText [] reference text htwo h with hm
    have hcount : m.count = needs text := count_ofText htwo h [] reference
    have hget : m.texts.getD i [] = (chunk text).2.2[i].1 := by
      show ((chunk text).2.2.map (·.1)).getD i [] = _
      rw [List.getD_eq_getElem?_getD, List.getElem?_map, List.getElem?_eq_getElem hi',
        Option.map_some, Option.getD_some]
    have hmem : (chunk text).2.2[i] ∈ (chunk text).2.2 := List.getElem_mem hi'
    obtain ⟨hcost, hle⟩ := hparts _ hmem
    have hvalid := m.concatValid_part (i := i) (by rw [hcount]; exact List.mem_range.mp hi)
    refine @fits_of_le text _ _ (fun c hc => ?_)
      (UserData.headerReads_concat8 m.reference hvalid _) ?_ ?_
    · rw [← hflat]
      rw [hget] at hc
      exact List.mem_flatMap.mpr ⟨_, hmem, hc⟩
    · rw [if_neg (List.cons_ne_nil _ _), hget, ← hcost]
      rw [if_neg (by omega)] at hle
      exact hle
    · rw [if_neg (List.cons_ne_nil _ _)]
      exact Nat.le_refl 6

theorem partsNeeded_eq (h : needs text ≤ 255) (reference : UInt8) :
    (partsNeeded text).2.1 = (splitText text reference).length := by
  rw [length_splitText h]
  exact (chunk_spec h).1

/-! ## Joining again -/

theorem Sent.keeps_nil {m : Sent} {r : Reassembler} (h : r.get m.key = none) : m.Keeps r [] [] where
  nodup := List.nodup_nil
  lt _ h := absurd h List.not_mem_nil
  short := Nat.lt_of_lt_of_le (by decide) m.two_le
  empty _ := h
  pending h := absurd rfl h

theorem Sent.open_append {r : Reassembler} {as : List Arrival} {a : Arrival}
    (h : Sent.Open r (as ++ [a])) :
    Sent.Open r as ∧ (((r.run as)).expire a.now).sets.length < maxPendingSets := by
  unfold Reassembler.run
  induction as generalizing r with
  | nil => exact ⟨trivial, h.1⟩
  | cons b as ih =>
    obtain ⟨hrest, hlast⟩ := ih h.2
    exact ⟨⟨h.1, hrest⟩, hlast⟩

theorem Sent.push_after {m : Sent} {r : Reassembler} (hnone : r.get m.key = none)
    {as : List Arrival} {a : Arrival} (hbelongs : ∀ b ∈ as ++ [a], m.Belongs b)
    (hwithin : ∀ b ∈ as ++ [a], ∀ c ∈ as, b.now - c.now < r.timeoutMs)
    (hopen : Sent.Open r (as ++ [a])) {i : ℕ} (hi : m.index a = some i) :
    ((r.run as).push a.sender a.ud a.now).1 = m.answer (as.foldl m.collect []) i := by
  obtain ⟨hopen', hlast⟩ := Sent.open_append hopen
  obtain ⟨hkeeps, htimeout⟩ :=
    keeps_run (Sent.keeps_nil hnone) (fun b hb => hbelongs b (List.mem_append_left _ hb))
    (fun b hb => ⟨fun _ h => absurd h List.not_mem_nil, fun c hc =>
      hwithin b (List.mem_append_left _ hb) c hc⟩) hopen'
  refine (keeps_push hkeeps (hbelongs a (List.mem_append_right _ (List.mem_singleton_self a)))
    (fun t ht => ?_) hlast).2 i hi
  rw [List.nil_append] at ht
  obtain ⟨c, hc, rfl⟩ := List.mem_map.mp ht
  rw [htimeout]
  exact hwithin a (List.mem_append_right _ (List.mem_singleton_self a)) c hc

theorem push_whole (r : Reassembler) (sender : List Char) (body : Body) (now : ℕ) :
    (r.push sender { udh := [], body } now).1 = some { udh := [], body } := rfl

/-- **Long texts survive splitting.**  Every part fits and is read back uncut, and the counter
agrees with the parts.  A text of one part is answered with itself.  Of more parts each is
answered with the text when all others have come since the text was last complete, and with
nothing when some have not. -/
theorem long_texts_survive {text : List Char} (h : needs text ≤ 255) (reference : UInt8) :
    (∀ ud ∈ splitText text reference, ud.readBack = .ok ud ∧ ud.encodeUd.2.2.1.length ≤ 140) ∧
      (splitText text reference).length = needs text ∧
      (partsNeeded text).2.1 = (splitText text reference).length ∧
      (needs text = 1 → ∀ ud ∈ splitText text reference, ∀ r sender now,
        (Reassembler.push r sender ud now).1 = some { udh := [], body := .text text }) ∧
      ∀ htwo : 2 ≤ needs text, ∀ sender,
        let m := Sent.ofText sender reference text htwo h
        splitText text reference = (List.range (needs text)).map m.part ∧
          ∀ (r : Reassembler) (as : List Arrival) (a : Arrival) (i : ℕ), r.get m.key = none →
            (∀ b ∈ as ++ [a], m.Belongs b) →
            (∀ b ∈ as ++ [a], ∀ c ∈ as, b.now - c.now < r.timeoutMs) → Sent.Open r (as ++ [a]) →
              m.index a = some i →
            let got := as.foldl m.collect []
            ((r.run as).push a.sender a.ud a.now).1 =
              if i ∉ got ∧ got.length + 1 = needs text then some { udh := [], body := .text text }
                else none := by
  refine ⟨splitText_fits h reference, length_splitText h reference, partsNeeded_eq h reference,
    fun hone ud hud r sender now => ?_,
    fun htwo sender => ⟨splitText_ofText htwo h sender reference,
      fun r as a i hnone hbelongs hwithin hopen hi => ?_⟩⟩
  · rw [splitText_of_one hone, List.mem_singleton] at hud
    rw [hud]
    exact push_whole r sender _ now
  · rw [Sent.push_after hnone hbelongs hwithin hopen hi]
    unfold Sent.answer
    rw [count_ofText htwo h, flatten_ofText htwo h]

/-- A text of two parts. -/
def longText : List Char := List.replicate 71 'Ж'

theorem needs_longText : needs longText = 2 := by decide +kernel

/-- The parts of `longText` come in an order, one a millisecond. -/
def longArrivals (order : List ℕ) : List Arrival :=
  order.zipIdx.map fun (i, now) =>
    { sender := ['1'], ud := ((splitText longText 7).getD i { udh := [], body := .text [] }), now }

theorem long_texts_survive_once :
    let m := Sent.ofText ['1'] 7 longText (by rw [needs_longText]) (by rw [needs_longText]; decide)
    (((Reassembler.run { timeoutMs := 1000 } (longArrivals [1])).push ['1'] (m.part 0) 1).1 =
      some { udh := [], body := .text longText }) := by
  intro m
  have hgot : ((longArrivals [1]).foldl m.collect []) = [1] := by decide +kernel
  have hrun :=
    ((@long_texts_survive longText (by rw [needs_longText]; decide) 7).2.2.2.2
    (by rw [needs_longText]) ['1']).2
    { timeoutMs := 1000 } (longArrivals [1]) ⟨['1'], m.part 0, 1⟩ 0 rfl
    (fun b hb => .inl (by
      have hall : (longArrivals [1] ++ [(⟨['1'], m.part 0, 1⟩ : Arrival)]).all
        (fun b => (m.index b).isSome) = true := by decide +kernel
      exact List.all_eq_true.mp hall b hb))
    (fun b hb c hc => by
      have hall : (longArrivals [1] ++ [(⟨['1'], m.part 0, 1⟩ : Arrival)]).all
        (fun b => (longArrivals [1]).all fun c => b.now - c.now < 1000) = true := by
        decide +kernel
      exact of_decide_eq_true (List.all_eq_true.mp (List.all_eq_true.mp hall b hb) c hc))
    ⟨by decide +kernel, by decide +kernel, trivial⟩ (by decide +kernel)
  refine hrun.trans (if_pos ?_)
  rw [hgot, needs_longText]
  decide

/-- **Duplicates complete the text again.**  The two parts of a text come twice, and the text is
there twice. -/
theorem not_text_once :
    ¬ ∀ (text : List Char) (reference : UInt8), needs text ≤ 255 →
      ∀ (r : Reassembler) (sender : List Char) (as : List Arrival),
      (∀ a ∈ as, a.sender = sender ∧ a.ud ∈ splitText text reference) →
      (∀ a ∈ as, ∀ b ∈ as, a.now - b.now < r.timeoutMs) →
      r.sets = [] → Sent.Open r as →
      ∀ as₁ a as₂ b as₃, as = as₁ ++ a :: as₂ ++ b :: as₃ →
        ((r.run as₁).push a.sender a.ud a.now).1 ≠ none →
        ((r.run (as₁ ++ a :: as₂)).push b.sender b.ud b.now).1 = none := by
  intro h
  have hall : (longArrivals [0, 1, 0, 1]).all
    (fun a => decide (a.sender = ['1']) && decide (a.ud ∈ splitText longText 7)) = true := by
    decide +kernel
  have hwithin : (longArrivals [0, 1, 0, 1]).all
    (fun a => (longArrivals [0, 1, 0, 1]).all fun b => a.now - b.now < 1000) = true := by
    decide +kernel
  have hfirst :
    ((Reassembler.run { timeoutMs := 1000 } (longArrivals [0])).push ['1']
    ((longArrivals [0, 1])[1]).ud 1).1 ≠ none := by
    decide +kernel
  have hsecond :
    ((Reassembler.run { timeoutMs := 1000 } (longArrivals [0, 1, 0])).push ['1']
    ((longArrivals [0, 1])[1]).ud 3).1 ≠ none := by
    decide +kernel
  refine hsecond (h longText 7 (by rw [needs_longText]; decide) { timeoutMs := 1000 } ['1']
    (longArrivals [0, 1, 0, 1]) (fun a ha => ?_)
    (fun a ha b hb => of_decide_eq_true
      (List.all_eq_true.mp (List.all_eq_true.mp hwithin a ha) b hb)) rfl
    ⟨by decide +kernel, by decide +kernel, by decide +kernel, by decide +kernel, trivial⟩
    (longArrivals [0]) ⟨['1'], ((longArrivals [0, 1])[1]).ud, 1⟩
    [⟨['1'], ((longArrivals [0, 1])[0]).ud, 2⟩] ⟨['1'], ((longArrivals [0, 1])[1]).ud, 3⟩
      [] rfl hfirst)
  have hand := List.all_eq_true.mp hall a ha
  rw [Bool.and_eq_true, decide_eq_true_eq, decide_eq_true_eq] at hand
  exact hand

end EvansComputer.Tel.Sms
