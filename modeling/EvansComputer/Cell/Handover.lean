import EvansComputer.Cell.Revocation

/-!
# Epochs and handovers

A session's epoch goes up by one whenever a context is made for it, so no two contexts of a
session have the same.  A handover makes its context when the target is asked, and the phone
hears of it when the target has answered; the command is put together then, from the epoch
that the session has by then.  A service request in between moves that on, and the command
names an epoch the target was never told.

Where no service request is accepted for a session while a handover of it is under way, each
command is for the target and the epoch of the one request that bears its number.
-/

namespace EvansComputer.Cell

variable {i : Input} {v : Carrier}

/-! ## What has been said -/

/-- The epoch of a context for a session. -/
def Said.epochFor (id : UInt32) : Said → Option UInt32
  | accept _ session epoch => if session = id then some epoch else none
  | request _ _ session _ epoch => if session = id then some epoch else none
  | _ => none

/-- The number of a handover that a target is asked for. -/
def Said.requested : Said → Option UInt32
  | request _ ho _ _ _ => some ho
  | _ => none

/-- The epochs of the contexts for a session, in order. -/
def epochsOf (id : UInt32) (said : List Said) : List UInt32 := said.filterMap (Said.epochFor id)

/-- Epochs one after another. -/
def epochsFrom (e : UInt32) (k : ℕ) : List UInt32 := (List.range k).map fun j => e + UInt32.ofNat j

/-- The `j`th number that a handover gets: they come round, and leave out zero. -/
def hoId (j : ℕ) : UInt32 := UInt32.ofNat (j % (2 ^ 32 - 1) + 1)

theorem epochsFrom_succ (e : UInt32) (k : ℕ) :
    epochsFrom e (k + 1) = epochsFrom e k ++ [e + UInt32.ofNat k] := by
  rw [epochsFrom, List.range_succ, List.map_append]
  rfl

theorem nodup_epochsFrom {e : UInt32} {k : ℕ} (hk : k ≤ 2 ^ 32) : (epochsFrom e k).Nodup := by
  refine List.Nodup.map_on (fun i hi j hj h => ?_) List.nodup_range
  have hij := congrArg UInt32.toNat ((UInt32.add_right_inj e).mp h)
  rw [UInt32.toNat_ofNat', UInt32.toNat_ofNat'] at hij
  have := List.mem_range.mp hi
  have := List.mem_range.mp hj
  rwa [Nat.mod_eq_of_lt (by omega), Nat.mod_eq_of_lt (by omega)] at hij

theorem toNat_hoId (j : ℕ) : (hoId j).toNat = j % (2 ^ 32 - 1) + 1 := by
  rw [hoId, UInt32.toNat_ofNat']
  have := Nat.mod_lt j (show 0 < 2 ^ 32 - 1 by decide)
  exact Nat.mod_eq_of_lt (by omega)

theorem hoId_succ (j : ℕ) : max (hoId j + 1) 1 = hoId (j + 1) := by
  apply UInt32.toNat_inj.mp
  rw [Carrier.toNat_max_one, UInt32.toNat_add, toNat_hoId, toNat_hoId, UInt32.toNat_one]
  omega

theorem nodup_hoIds {k : ℕ} (hk : k < 2 ^ 32) : ((List.range k).map hoId).Nodup := by
  refine List.Nodup.map_on (fun i hi j hj h => ?_) List.nodup_range
  have hij := congrArg UInt32.toNat h
  rw [toNat_hoId, toNat_hoId] at hij
  have := List.mem_range.mp hi
  have := List.mem_range.mp hj
  rw [Nat.mod_eq_of_lt (by omega), Nat.mod_eq_of_lt (by omega)] at hij
  omega

/-- Of a list without repetition each entry comes from one place. -/
theorem eq_of_filterMap_nodup {α β : Type*} {f : α → Option β} {l : List α}
    (h : (l.filterMap f).Nodup) {x y : α} (hx : x ∈ l) (hy : y ∈ l) {b : β} (hfx : f x = some b)
    (hfy : f y = some b) : x = y := by
  induction l with
  | nil => exact absurd hx List.not_mem_nil
  | cons a l ih =>
    have hmem : ∀ z ∈ l, f z = some b → b ∈ l.filterMap f :=
      fun z hz hfz => List.mem_filterMap.mpr ⟨z, hz, hfz⟩
    have hne : ∀ z ∈ l, f a = some b → f z ≠ some b := by
      intro z hz hfa hfz
      rw [List.filterMap_cons_some hfa, List.nodup_cons] at h
      exact h.1 (hmem z hz hfz)
    have htail : (l.filterMap f).Nodup := by
      cases hfa : f a with
      | none => rwa [List.filterMap_cons_none hfa] at h
      | some c =>
        rw [List.filterMap_cons_some hfa, List.nodup_cons] at h
        exact h.2
    rcases List.mem_cons.mp hx with hxa | hxl <;> rcases List.mem_cons.mp hy with hya | hyl
    · exact hxa.trans hya.symm
    · exact absurd hfy (hne y hyl (hxa ▸ hfx))
    · exact absurd hfx (hne x hxl (hya ▸ hfy))
    · exact ih htail hxl hyl

namespace Carrier

variable {v v' : Carrier} {l : Label} {id e : UInt32} {said₀ : List Said}

/-! ## One session's contexts -/

/-- Since some moment the contexts for a session have had the epochs from `e` on. -/
def Counted (said₀ : List Said) (id e : UInt32) (v : Carrier) : Prop :=
  ∃ new k, v.said = said₀ ++ new ∧ epochsOf id new = epochsFrom e k ∧
    ∀ a, v.sessions id = some a → a.epoch + 1 = e + UInt32.ofNat k

theorem Counted.quiet (h : Counted said₀ id e v) {new : List Said} (hsaid : v'.said = v.said ++ new)
    (hnew : epochsOf id new = [])
    (hlive : ∀ a', v'.sessions id = some a' → ∃ a, v.sessions id = some a ∧ a'.epoch = a.epoch) :
    Counted said₀ id e v' := by
  obtain ⟨old, k, hold, hepochs, hnext⟩ := h
  refine ⟨old ++ new, k, by rw [hsaid, hold, List.append_assoc], ?_, fun a' ha' => ?_⟩
  · rw [epochsOf, List.filterMap_append]
    exact (congrArg₂ (· ++ ·) hepochs hnew).trans (List.append_nil _)
  · obtain ⟨a, ha, hepoch⟩ := hlive a' ha'
    rw [hepoch]
    exact hnext a ha

theorem Counted.next (h : Counted said₀ id e v) {s : Said} {a : Seat} (ha : v.sessions id = some a)
    (hsaid : v'.said = v.said ++ [s]) (hs : s.epochFor id = some (a.epoch + 1))
    (hlive : ∀ a', v'.sessions id = some a' → a'.epoch = a.epoch + 1) : Counted said₀ id e v' := by
  obtain ⟨old, k, hold, hepochs, hnext⟩ := h
  refine ⟨old ++ [s], k + 1, by rw [hsaid, hold, List.append_assoc], ?_, fun a' ha' => ?_⟩
  · rw [epochsOf, List.filterMap_append, List.filterMap_cons_some hs, List.filterMap_nil,
      hnext a ha, epochsFrom_succ]
    exact congrArg (· ++ _) hepochs
  · rw [hlive a' ha', hnext a ha, UInt32.ofNat_add, UInt32.add_assoc]
    rfl

theorem Counted.move (h : Counted said₀ id e v) (hmove : Move v l v')
    (hl : ∀ a, l = .created a → a.id ≠ id) :
    Counted said₀ id e v' := by
  have hsame : ∀ {id' : UInt32} {a a' : Seat}, v.sessions id' = some a → a'.epoch = a.epoch →
      ∀ b', (v.seat id' a').sessions id = some b' → ∃ b, v.sessions id = some b ∧
        b'.epoch = b.epoch := by
    intro id' a a' ha hepoch b' hb'
    rw [sessions_seat] at hb'
    by_cases heq : id = id'
    · rw [heq, Function.update_self] at hb'
      exact ⟨a, heq ▸ ha, by rw [← Option.some.inj hb', hepoch]⟩
    · rw [Function.update_of_ne heq] at hb'
      exact ⟨b', hb', rfl⟩
  have hmap :
    ∀ {f : UInt32 → Seat → Seat}, (∀ a, v.sessions id = some a → (f id a).epoch = a.epoch) →
      ∀ b', ((v.sessions id).map (f id)) = some b' → ∃ b, v.sessions id = some b ∧
        b'.epoch = b.epoch := by
    intro f hf b' hb'
    obtain ⟨b, hb, rfl⟩ := Option.map_eq_some_iff.mp hb'
    exact ⟨b, hb, hf b hb⟩
  have hnone : v'.said = v.said → v'.said = v.said ++ [] :=
    fun h => h.trans (List.append_nil _).symm
  -- a context for this session, or for another
  have hcontext : ∀ {id' : UInt32} {a a' : Seat} {s : Said}, v.sessions id' = some a →
      v'.sessions = (v.seat id' a').sessions → v'.said = v.said ++ [s] → a'.epoch = a.epoch + 1 →
      (s.epochFor id = if id' = id then some (a.epoch + 1) else none) → Counted said₀ id e v' := by
    intro id' a a' s ha hsessions hsaid hepoch hs
    by_cases heq : id' = id
    · subst heq
      rw [if_pos rfl] at hs
      refine h.next ha hsaid hs fun b hb => ?_
      rw [hsessions, sessions_seat, Function.update_self] at hb
      rw [← Option.some.inj hb, hepoch]
    · rw [if_neg heq] at hs
      refine h.quiet hsaid (by rw [epochsOf, List.filterMap_cons_none hs, List.filterMap_nil])
        fun b hb => ⟨b, ?_, rfl⟩
      rwa [hsessions, sessions_seat, Function.update_of_ne (Ne.symm heq)] at hb
  cases hmove with
  | ended id' =>
    refine h.quiet (hnone ?_) rfl fun b hb => ⟨b, ?_, rfl⟩
    · unfold ended
      cases v.sessions id' <;> rfl
    · rw [sessions_ended] at hb
      by_cases heq : id = id'
      · rw [heq, Function.update_self] at hb
        cases hb
      · rwa [Function.update_of_ne heq] at hb
  | kept f hkeeps => exact h.quiet (hnone rfl) rfl (hmap fun a ha => (hkeeps id a ha).epoch)
  | up ha => exact h.quiet rfl rfl fun b hb => ⟨b, hb, rfl⟩
  | down ha => exact h.quiet rfl rfl fun b hb => ⟨b, hb, rfl⟩
  | @created a s =>
    have hne : a.id ≠ id := hl a rfl
    have hepoch : Said.epochFor id (.accept s.conn a.id a.epoch) = none := if_neg hne
    refine h.quiet rfl ?_ fun b hb => ⟨b, ?_, rfl⟩
    · rw [epochsOf, List.filterMap_cons_none hepoch, List.filterMap_nil]
    · change Function.update v.sessions a.id (some a) id = some b at hb
      rwa [Function.update_of_ne (Ne.symm hne)] at hb
  | @served id' a s ha =>
    have hseat : ({ a with epoch := a.epoch + 1, serving := some s } : Seat).epoch = a.epoch + 1 :=
      rfl
    exact hcontext ha rfl rfl hseat rfl
  | @prepared id' a target now ha =>
    have hseat : ({ a with
        epoch := a.epoch + 1
        ho := some { id := v.nextHo, target, acked := false, startedMs := now } } : Seat).epoch =
          a.epoch + 1 := rfl
    exact hcontext ha rfl rfl hseat rfl
  | acked c ho =>
    exact h.quiet (hnone rfl) rfl (hmap (f := fun _ => Seat.acknowledged ho c) fun _ _ => rfl)
  | commanded ha => exact h.quiet rfl rfl fun b hb => ⟨b, hb, rfl⟩
  | switched ha hho => exact h.quiet (hnone rfl) rfl (hsame ha rfl)
  | _ => exact h.quiet (hnone rfl) rfl fun b hb => ⟨b, hb, rfl⟩

/-! ## Commands and the requests before them -/

/-- Every command comes after a request with its number, session, cell and epoch. -/
def Ordered (said : List Said) : Prop :=
  ∀ c ho session cell epoch pre post, said = pre ++ .command c ho session cell epoch :: post →
    ∃ t, .request t ho session cell epoch ∈ pre

/-- A handover under way is what its target was asked for, with the epoch the session has. -/
structure Agreed (v : Carrier) : Prop where
  ids : ∀ {id a}, v.sessions id = some a → a.id = id
  asked : ∀ {id a h}, v.sessions id = some a → a.ho = some h →
    .request h.target.conn h.id id h.target.cell a.epoch ∈ v.said
  ordered : Ordered v.said
  numbered : ∃ k, v.said.filterMap Said.requested = (List.range k).map hoId ∧ v.nextHo = hoId k

theorem Ordered.append {said : List Said} (h : Ordered said) {s : Said}
    (hs : ∀ c ho session cell epoch, s = .command c ho session cell epoch →
      ∃ t, .request t ho session cell epoch ∈ said) : Ordered (said ++ [s]) := by
  intro c ho session cell epoch pre post heq
  rcases List.eq_nil_or_concat post with rfl | ⟨post, s', rfl⟩
  · obtain ⟨rfl, hs'⟩ := List.append_inj' heq rfl
    exact hs c ho session cell epoch (List.singleton_inj.mp hs')
  · rw [List.concat_eq_append, ← List.cons_append, ← List.append_assoc] at heq
    obtain ⟨rfl, -⟩ := List.append_inj' heq rfl
    exact h c ho session cell epoch pre post rfl

/-- Sessions change, but none moves on while a handover of it is under way. -/
theorem Agreed.quiet (h : v.Agreed) (hsaid : v'.said = v.said) (hnext : v'.nextHo = v.nextHo)
    (hlive : ∀ id a', v'.sessions id = some a' → ∃ a, v.sessions id = some a ∧ a'.id = a.id ∧
      ∀ h', a'.ho = some h' → a'.epoch = a.epoch ∧ ∃ h, a.ho = some h ∧ h'.id = h.id ∧
        h'.target = h.target) :
    v'.Agreed where
  ids {id a'} ha' := by
    obtain ⟨a, ha, hid, -⟩ := hlive id a' ha'
    exact hid.trans (h.ids ha)
  asked {id a' h'} ha' hho' := by
    obtain ⟨a, ha, -, hho⟩ := hlive id a' ha'
    obtain ⟨hepoch, h₀, hho₀, hid, htarget⟩ := hho h' hho'
    rw [hsaid, hepoch, hid, htarget]
    exact h.asked ha hho₀
  ordered := hsaid ▸ h.ordered
  numbered := hsaid ▸ hnext ▸ h.numbered

theorem Agreed.say (h : v.Agreed) {s : Said} (hs : s.requested = none)
    (hcommand : ∀ c ho session cell epoch, s = .command c ho session cell epoch →
      ∃ t, .request t ho session cell epoch ∈ v.said) : (v.say s).Agreed where
  ids := h.ids
  asked ha hho := List.mem_append_left _ (h.asked ha hho)
  ordered := h.ordered.append hcommand
  numbered := by
    obtain ⟨k, hk, hnext⟩ := h.numbered
    refine ⟨k, ?_, hnext⟩
    change (v.said ++ [s]).filterMap Said.requested = _
    rw [List.filterMap_append, List.filterMap_cons_none hs, List.filterMap_nil, List.append_nil, hk]

/-- What stays of a session where one session takes another shape. -/
theorem live_seat {id : UInt32} {a a' : Seat} (ha : v.sessions id = some a) (hid : a'.id = a.id)
    (hho : ∀ h', a'.ho = some h' → a'.epoch = a.epoch ∧ ∃ h, a.ho = some h ∧ h'.id = h.id ∧
      h'.target = h.target)
    (id' : UInt32) (b' : Seat) (hb' : (v.seat id a').sessions id' = some b') :
    ∃ b, v.sessions id' = some b ∧ b'.id = b.id ∧
      ∀ h', b'.ho = some h' → b'.epoch = b.epoch ∧ ∃ h, b.ho = some h ∧ h'.id = h.id ∧
        h'.target = h.target := by
  rw [sessions_seat] at hb'
  by_cases heq : id' = id
  · rw [heq, Function.update_self] at hb'
    obtain rfl := Option.some.inj hb'
    exact ⟨a, heq ▸ ha, hid, hho⟩
  · rw [Function.update_of_ne heq] at hb'
    exact ⟨b', hb', rfl, fun h' hh' => ⟨rfl, h', hh', rfl, rfl⟩⟩

theorem Agreed.move (h : v.Agreed) (hmove : Move v l v')
    (hl : ∀ id a, l = .served id → v.sessions id = some a → a.ho = none) : v'.Agreed := by
  have hself : ∀ a : Seat, ∀ h', a.ho = some h' → a.epoch = a.epoch ∧
      ∃ h, a.ho = some h ∧ h'.id = h.id ∧ h'.target = h.target :=
        fun a h' hh' => ⟨rfl, h', hh', rfl, rfl⟩
  cases hmove with
  | ended id =>
    refine h.quiet ?_ ?_ fun id' a' ha' => ?_
    · unfold ended
      cases v.sessions id <;> rfl
    · unfold ended
      cases v.sessions id <;> rfl
    · rw [sessions_ended] at ha'
      by_cases heq : id' = id
      · rw [heq, Function.update_self] at ha'
        cases ha'
      · rw [Function.update_of_ne heq] at ha'
        exact ⟨a', ha', rfl, hself a'⟩
  | kept f hkeeps =>
    refine h.quiet rfl rfl fun id a' ha' => ?_
    obtain ⟨a, ha, rfl⟩ := Option.map_eq_some_iff.mp ha'
    have hkeep := hkeeps id a ha
    refine ⟨a, ha, hkeep.id, fun h' hh' => ⟨hkeep.epoch, h', ?_, rfl, rfl⟩⟩
    rcases hkeep.ho with hho | hho
    · exact hho ▸ hh'
    · rw [hho] at hh'
      cases hh'
  | up ha => exact h.say rfl fun c ho session cell epoch heq => nomatch heq
  | down ha => exact h.say rfl fun c ho session cell epoch heq => nomatch heq
  | @created a s hid htmsi hnew hsub hserving hsite hho =>
    have hcreated : (v.created a).Agreed := by
      refine ⟨fun {id b} hb => ?_, fun {id b h'} hb hh' => ?_, h.ordered, h.numbered⟩ <;>
        change Function.update v.sessions a.id (some a) id = some b at hb <;>
        by_cases heq : id = a.id
      · rw [heq, Function.update_self] at hb
        rw [← Option.some.inj hb, heq]
      · rw [Function.update_of_ne heq] at hb
        exact h.ids hb
      · rw [heq, Function.update_self] at hb
        rw [← Option.some.inj hb, hho] at hh'
        cases hh'
      · rw [Function.update_of_ne heq] at hb
        exact h.asked hb hh'
    exact hcreated.say rfl fun c ho session cell epoch heq => nomatch heq
  | @served id a s ha =>
    have hfree := hl id a rfl ha
    have hseat : (v.seat id { a with epoch := a.epoch + 1, serving := some s }).Agreed :=
      h.quiet rfl rfl (live_seat ha rfl fun h' hh' => by rw [hfree] at hh'; cases hh')
    exact hseat.say rfl fun c ho session cell epoch heq => nomatch heq
  | @prepared id a target now ha hfree =>
    obtain ⟨k, hk, hnext⟩ := h.numbered
    refine ⟨fun {id' b} hb => ?_, fun {id' b h'} hb hh' => ?_, ?_, k + 1, ?_, ?_⟩
    · change Function.update v.sessions id _ id' = some b at hb
      by_cases heq : id' = id
      · rw [heq, Function.update_self] at hb
        rw [← Option.some.inj hb, heq]
        change a.id = id
        exact h.ids ha
      · rw [Function.update_of_ne heq] at hb
        exact h.ids hb
    · change Function.update v.sessions id _ id' = some b at hb
      by_cases heq : id' = id
      · rw [heq, Function.update_self] at hb
        obtain rfl := Option.some.inj hb
        obtain rfl := Option.some.inj hh'
        rw [heq]
        exact List.mem_append_right _ (List.mem_singleton_self _)
      · rw [Function.update_of_ne heq] at hb
        exact List.mem_append_left _ (h.asked hb hh')
    · exact h.ordered.append fun c ho session cell epoch heq => nomatch heq
    · change (v.said ++ [_]).filterMap Said.requested = _
      rw [List.filterMap_append, hk, List.range_succ, List.map_append, hnext]
      rfl
    · change max (v.nextHo + 1) 1 = _
      rw [hnext, hoId_succ]
  | acked c ho =>
    refine h.quiet rfl rfl fun id a' ha' => ?_
    obtain ⟨a, ha, rfl⟩ := Option.map_eq_some_iff.mp ha'
    refine ⟨a, ha, rfl, fun h' hh' => ⟨rfl, ?_⟩⟩
    obtain ⟨h₀, hho₀, rfl⟩ := Option.map_eq_some_iff.mp hh'
    refine ⟨h₀, hho₀, ?_⟩
    split_ifs <;> exact ⟨rfl, rfl⟩
  | @commanded id a h₀ s ha hho hserving =>
    refine h.say rfl fun c ho session cell epoch heq => ?_
    cases heq
    rw [h.ids ha]
    exact ⟨_, h.asked ha hho⟩
  | switched ha hho => exact h.quiet rfl rfl (live_seat ha rfl fun h' hh' => nomatch hh')
  | _ => exact h.quiet rfl rfl fun id a ha => ⟨a, ha, rfl, hself a⟩

/-- A command that a move says is the serving site's, for a handover under way. -/
theorem commanded_of_mem (hmove : Move v l v') {new : List Said} (hnew : v'.said = v.said ++ new)
    {c : ConnId} {ho session cell epoch : UInt32} (hmem : .command c ho session cell epoch ∈ new)
    (hids : v.Agreed) :
    ∃ a h s, v.sessions session = some a ∧ a.ho = some h ∧ a.serving = some s ∧ s.conn = c ∧
      l = .acked h.target.conn h.id ∧ h.id = ho ∧ h.target.cell = cell ∧ a.epoch = epoch := by
  have hnone : v'.said = v.said → new = [] :=
    fun h => List.append_cancel_left (by rw [← hnew, h, List.append_nil])
  have hone : ∀ s, v'.said = v.said ++ [s] → .command c ho session cell epoch = s := fun s h =>
    List.mem_singleton.mp (List.append_cancel_left (hnew.symm.trans h) ▸ hmem)
  have hnil : ¬ v'.said = v.said := fun h => List.not_mem_nil (hnone h ▸ hmem)
  cases hmove with
  | ended id =>
    refine absurd ?_ hnil
    unfold ended
    cases v.sessions id <;> rfl
  | up ha => exact nomatch hone _ rfl
  | down ha => exact nomatch hone _ rfl
  | created => exact nomatch hone _ rfl
  | served => exact nomatch hone _ rfl
  | prepared => exact nomatch hone _ rfl
  | @commanded id a h s ha hho hserving =>
    obtain ⟨rfl, rfl, rfl, rfl, rfl⟩ := Said.command.inj (hone _ rfl)
    exact ⟨a, h, s, by rw [hids.ids ha]; exact ha, hho, hserving, rfl, rfl, rfl, rfl, rfl⟩
  | _ => exact absurd rfl hnil

theorem serving_move (hmove : Move v l v') {id : UInt32} {a' : Seat} {s : Serving}
    (ha' : v'.sessions id = some a') (hs : a'.serving = some s) :
    (∃ a, v.sessions id = some a ∧ a.serving = some s) ∨ (∃ a, l = .created a) ∨ l = .served id ∨
      ∃ a h, v.sessions id = some a ∧ a.ho = some h ∧ h.target = s ∧
        l = .switched h.target.conn h.id id := by
  have hseat : ∀ {id' : UInt32} {a b : Seat}, (v.seat id' b).sessions id = some a' →
      v.sessions id' = some a → b.serving = a.serving → ∃ a, v.sessions id = some a ∧
        a.serving = some s := by
    intro id' a b hb ha hserving
    rw [sessions_seat] at hb
    by_cases heq : id = id'
    · rw [heq, Function.update_self] at hb
      exact ⟨a, heq ▸ ha, by rw [← hserving, Option.some.inj hb, hs]⟩
    · rw [Function.update_of_ne heq] at hb
      exact ⟨a', hb, hs⟩
  cases hmove with
  | ended id' =>
    rw [sessions_ended] at ha'
    by_cases heq : id = id'
    · rw [heq, Function.update_self] at ha'
      cases ha'
    · rw [Function.update_of_ne heq] at ha'
      exact .inl ⟨a', ha', hs⟩
  | kept f hkeeps =>
    obtain ⟨a, ha, rfl⟩ := Option.map_eq_some_iff.mp ha'
    refine .inl ⟨a, ha, ?_⟩
    rcases (hkeeps id a ha).serving with hserving | hserving
    · rw [← hserving, hs]
    · rw [hserving] at hs
      cases hs
  | created => exact .inr (.inl ⟨_, rfl⟩)
  | @served id' a s' ha =>
    by_cases heq : id = id'
    · exact .inr (.inr (.inl (heq ▸ rfl)))
    · change Function.update v.sessions id' _ id = some a' at ha'
      rw [Function.update_of_ne heq] at ha'
      exact .inl ⟨a', ha', hs⟩
  | prepared now ha => exact .inl (hseat ha' ha rfl)
  | acked c ho =>
    obtain ⟨a, ha, rfl⟩ := Option.map_eq_some_iff.mp ha'
    exact .inl ⟨a, ha, hs⟩
  | @switched id' a h ha hho =>
    change Function.update v.sessions id' _ id = some a' at ha'
    by_cases heq : id = id'
    · subst heq
      rw [Function.update_self] at ha'
      rw [← Option.some.inj ha'] at hs
      exact .inr (.inr (.inr ⟨a, h, ha, hho, Option.some.inj hs, rfl⟩))
    · rw [Function.update_of_ne heq] at ha'
      exact .inl ⟨a', ha', hs⟩
  | _ => exact .inl ⟨a', ha', hs⟩

end Carrier

namespace Core

open Carrier Exec

variable {core core₀ core₁ core₂ core' : Core} {n m : ℕ}

/-! ## The epochs of a session -/

/-- A challenge is answered correctly. -/
def Answered (core : Core) (i : Input) : Prop :=
  ∃ c ue res p, i = .turn c ∧ core.heard c = some (.ueAuthResponse ue res) ∧
    core.pending.lookup (c, ue) = some p ∧ p.resp.res = res

/-- No answer is about to begin a session with an id. -/
def LeavesId (id : UInt32) (core : Core) (i : Input) : Prop :=
  core.nextSession = id → ¬ core.Answered i

/-- The first session of a step is counted from its context on. -/
theorem counted_of_begin {now : ℕ} (hfresh : i.Fresh core) (hstep : core.step i now = .ok core₁)
    (hbegan : core₁.nextSession ≠ core.nextSession) :
    ∃ e, Counted core.carrier.said core.nextSession e core₁.carrier := by
  have hkeep : core₁.carrier.nextSession = core.nextSession ∨ ∃ e,
      Counted core.carrier.said core.nextSession e core₁.carrier := by
    refine ((moves_of_step hfresh hstep).induction (I := fun v => v.nextSession = core.nextSession ∨
      (v.nextSession ≠ core.nextSession ∧ ∃ e, Counted core.carrier.said core.nextSession e v)) ?_
      (.inl rfl)).imp_right And.right
    intro v l v' hl hmove hv
    by_cases hcreated : ∃ a, l = .created a
    · obtain ⟨a, rfl⟩ := hcreated
      obtain ⟨c, ue, res, p, rfl, hheard, hp, hres, ha⟩ := of_stepLets_created hl
      cases hmove with
      | @created a s hid =>
        have hid' : a.id = core.nextSession := hid.trans ha.nextSession
        refine .inr ⟨?_, a.epoch, [.accept s.conn a.id a.epoch], 1, ?_, ?_, fun b hb => ?_⟩
        · change max (a.id + 1) 1 ≠ _
          rw [← hid']
          intro heq
          have hnat := congrArg UInt32.toNat heq
          rw [toNat_max_one, UInt32.toNat_add, UInt32.toNat_one] at hnat
          have := a.id.toNat_lt
          omega
        · change v.said ++ _ = _
          rw [ha.said]
        · have hepoch : Said.epochFor core.nextSession (.accept s.conn a.id a.epoch) =
            some a.epoch := if_pos hid'
          rw [epochsOf, List.filterMap_cons_some hepoch, epochsFrom_succ, epochsFrom]
          change [a.epoch] = [a.epoch + 0]
          rw [UInt32.add_zero]
        · change Function.update v.sessions a.id (some a) core.nextSession = some b at hb
          rw [hid', Function.update_self] at hb
          rw [← Option.some.inj hb]
          rfl
    · have hl' : ∀ a, l ≠ .created a := fun a ha => hcreated ⟨a, ha⟩
      rw [nextSession_move hmove hl']
      refine hv.imp_right fun ⟨hne, e, hcount⟩ =>
        ⟨hne, e, hcount.move hmove fun a ha => absurd ha (hl' a)⟩
  exact hkeep.resolve_left hbegan

/-- **The contexts of a session have epochs of their own**, from the step that begins it to
where its id is given out again. -/
theorem epochs_nodup {now : ℕ} (hfresh : i.Fresh core) (hstep : core.step i now = .ok core₁)
    (hbegan : core₁.nextSession ≠ core.nextSession)
    (hrun : Run (LeavesId core.nextSession) core₁ m core₂) :
    ∃ new, core₂.carrier.said = core.carrier.said ++ new ∧
      ((epochsOf core.nextSession new).length < 2 ^ 32 →
        (epochsOf core.nextSession new).Nodup) := by
  obtain ⟨e, hbegin⟩ := counted_of_begin hfresh hstep hbegan
  generalize core.nextSession = id at hbegin hrun ⊢
  have hcount : Counted core.carrier.said id e core₂.carrier := by
    refine hrun.induction hbegin ?_
    rintro core i v l v' hok hl hmove hv
    refine hv.move hmove ?_
    rintro a rfl
    obtain ⟨c, ue, res, p, rfl, hheard, hp, hres, ha⟩ := of_stepLets_created hl
    cases hmove with
    | created hid =>
      intro heq
      exact hok ((hid.trans ha.nextSession).symm.trans heq) ⟨c, ue, res, p, rfl, hheard, hp, hres⟩
  obtain ⟨new, k, hsaid, hepochs, -⟩ := hcount
  refine ⟨new, hsaid, fun hlength => ?_⟩
  rw [hepochs] at hlength ⊢
  rw [epochsFrom, List.length_map, List.length_range] at hlength
  exact nodup_epochsFrom hlength.le

/-! ## Handovers -/

/-- No service request is accepted for a session while a handover of it is under way. -/
def Settled (core : Core) : Input → Prop
  | .turn c => ∀ ue cell tmsi count mac id s, core.heard c =
    some (.ueService ue cell tmsi count mac) →
      core.byTmsi[tmsi]? = some id → core.sessions[id]? = some s → s.srCount < count →
      core.prim.srMac s.resp.ksInt tmsi count = mac → s.ho = none
  | _ => True

theorem of_stepLets_served {id : UInt32} (h : core.StepLets i v (.served id)) :
    v = core.carrier ∧ ∃ c ue cell tmsi count mac s, i = .turn c ∧
      core.heard c = some (.ueService ue cell tmsi count mac) ∧ core.byTmsi[tmsi]? = some id ∧
      core.sessions[id]? = some s ∧ s.srCount < count ∧
        core.prim.srMac s.resp.ksInt tmsi count = mac := by
  cases h with
  | turn h =>
    cases h with
    | ctl hm hl =>
      cases hl with
      | served hid hs hcount hmac =>
        exact ⟨rfl, _, _, _, _, _, _, _, rfl, hm, hid, hs, hcount, hmac⟩
  | admin h => cases h

theorem of_stepLets_acked {c : ConnId} {ho : UInt32} (h : core.StepLets i v (.acked c ho)) :
    i = .turn c ∧ ∃ ueId grant, core.heard c = some (.hoRequestAck ho ueId grant) := by
  cases h with
  | turn h =>
    cases h with
    | ctl hm hl => cases hl with | acked ho ueId grant => exact ⟨rfl, _, _, hm⟩
  | admin h => cases h

theorem of_stepLets_switched {c : ConnId} {ho session : UInt32}
    (h : core.StepLets i v (.switched c ho session)) :
    i = .turn c ∧ core.heard c = some (.pathSwitch ho session) := by
  cases h with
  | turn h =>
    cases h with
    | ctl hm hl => cases hl with | switched => exact ⟨rfl, hm⟩
  | admin h => cases h

theorem agreed_move {v' : Carrier} {l : Label} (hok : core.Settled i) (hl : core.StepLets i v l)
    (hmove : Move v l v') (h : v.Agreed) : v'.Agreed := by
  refine h.move hmove ?_
  rintro id a rfl ha
  obtain ⟨rfl, c, ue, cell, tmsi, count, mac, s, rfl, hheard, hid, hs, hcount, hmac⟩ :=
    of_stepLets_served hl
  have hho := hok ue cell tmsi count mac id s hheard hid hs hcount hmac
  rw [carrier_sessions hs] at ha
  rw [← Option.some.inj ha]
  exact hho

theorem agreed_new {prim : Primitives} {db : Db} {cfg : CoreConfig} {entropy : List Byte}
    (h : Core.new prim db cfg entropy = .ok core) : core.carrier.Agreed := by
  have hempty : core.carrier.sessions = (fun _ => none) ∧ core.carrier.said = [] ∧
    core.nextHo = 1 := by
    unfold Core.new at h
    cases hsplit : splitOff 4 entropy with
    | none => rw [hsplit] at h; cases h
    | some p =>
      rw [hsplit] at h
      dsimp only at h
      split_ifs at h <;> cases h <;> exact ⟨rfl, rfl, rfl⟩
  obtain ⟨hsessions, hsaid, hnext⟩ := hempty
  have hnone : ∀ {id a}, core.carrier.sessions id = some a → False := by
    intro id a ha
    rw [hsessions] at ha
    cases ha
  refine ⟨fun ha => (hnone ha).elim, fun ha => (hnone ha).elim, ?_, 0, ?_, hnext⟩
  · rw [hsaid]
    intro c ho session cell epoch pre post heq
    exact absurd heq (List.append_ne_nil_of_right_ne_nil _ (List.cons_ne_nil _ _)).symm
  · rw [hsaid]
    rfl

/-- A handover that has been commanded or is being switched: what the target was asked. -/
structure Heeded (core core' : Core) (i : Input) : Prop where
  /-- A command goes to the site that serves the session, on the answer of the target. -/
  commanded : ∃ new, core'.carrier.said = core.carrier.said ++ new ∧
    ∀ c ho session cell epoch, Said.command c ho session cell epoch ∈ new →
      ∃ t ueId grant, i = .turn t ∧ core.heard t = some (.hoRequestAck ho ueId grant) ∧
        .request t ho session cell epoch ∈ core'.carrier.said ∧
        ∃ s, core.sessions[session]? = some s ∧ s.serving.map (·.conn) = some c
  /-- A path switch leaves a session where it is, or moves the one it names to the target. -/
  switched : ∀ t ho session, i = .turn t → core.heard t = some (.pathSwitch ho session) →
    ∀ (id : UInt32) (s' : Session) (place : Serving), core'.sessions[id]? = some s' →
      s'.serving = some place →
      (∃ s, core.sessions[id]? = some s ∧ s.serving = some place) ∨
        id = session ∧ place.conn = t ∧ ∃ epoch, .request t ho session place.cell epoch ∈
          core'.carrier.said

/-- Where the serving sites may be in the course of a step. -/
def Places (core : Core) (i : Input) (v : Carrier) : Prop :=
  ∀ id a place, v.sessions id = some a → a.serving = some place →
    (∃ s, core.sessions[id]? = some s ∧ s.serving = some place) ∨
      (∃ t ho session, i = .turn t ∧ core.heard t = some (.pathSwitch ho session) ∧ id = session ∧
        place.conn = t ∧
        ∃ epoch, .request t ho session place.cell epoch ∈ v.said) ∨
      ∃ t m, i = .turn t ∧ core.heard t = some m ∧ ((∃ ue res, m = .ueAuthResponse ue res) ∨
        ∃ ue cell tmsi count mac, m = .ueService ue cell tmsi count mac)

theorem places_move {v' : Carrier} {l : Label} (hl : core.StepLets i v l) (hmove : Move v l v')
    (hv : v.Agreed) (h : core.Places i v) : core.Places i v' := by
  obtain ⟨new, hsaid, -⟩ := said_move hmove
  intro id a place ha hplace
  rcases serving_move hmove ha hplace with
    ⟨b, hb, hserving⟩ | ⟨b, rfl⟩ | rfl | ⟨b, h₀, hb, hho, rfl, rfl⟩
  · rcases h id b place hb hserving with
      hold | ⟨t, ho, session, hi, hheard, hid, hconn, epoch, hasked⟩ | hnew
    · exact .inl hold
    · refine .inr (.inl ⟨t, ho, session, hi, hheard, hid, hconn, epoch, ?_⟩)
      rw [hsaid]
      exact List.mem_append_left _ hasked
    · exact .inr (.inr hnew)
  · obtain ⟨c, ue, res, p, hi, hheard, -⟩ := of_stepLets_created hl
    exact .inr (.inr ⟨c, _, hi, hheard, .inl ⟨ue, res, rfl⟩⟩)
  · obtain ⟨-, c, ue, cell, tmsi, count, mac, s, hi, hheard, -⟩ := of_stepLets_served hl
    exact .inr (.inr ⟨c, _, hi, hheard, .inr ⟨ue, cell, tmsi, count, mac, rfl⟩⟩)
  · obtain ⟨hi, hheard⟩ := of_stepLets_switched hl
    refine .inr (.inl ⟨_, _, _, hi, hheard, rfl, rfl, b.epoch, ?_⟩)
    rw [hsaid]
    exact List.mem_append_left _ (hv.asked hb hho)

/-- **A step keeps handovers in agreement** where it is settled. -/
theorem agreed_step {now : ℕ} (h : core.carrier.Agreed) (hfresh : i.Fresh core)
    (hok : core.Settled i) (hstep : core.step i now = .ok core') :
    core'.carrier.Agreed ∧ Heeded core core' i := by
  have hkeep : core'.carrier.Agreed ∧ core.Places i core'.carrier ∧
      ∃ new, core'.carrier.said = core.carrier.said ++ new ∧
        ∀ c ho session cell epoch, Said.command c ho session cell epoch ∈ new →
          ∃ t ueId grant, i = .turn t ∧ core.heard t = some (.hoRequestAck ho ueId grant) ∧
            .request t ho session cell epoch ∈ core'.carrier.said ∧
            ∃ s, core.sessions[session]? = some s ∧ s.serving.map (·.conn) = some c := by
    refine (moves_of_step hfresh hstep).induction (I := fun v => v.Agreed ∧ core.Places i v ∧
      ∃ new, v.said = core.carrier.said ++ new ∧
        ∀ c ho session cell epoch, Said.command c ho session cell epoch ∈ new →
          ∃ t ueId grant, i = .turn t ∧ core.heard t = some (.hoRequestAck ho ueId grant) ∧
            .request t ho session cell epoch ∈ v.said ∧
            ∃ s, core.sessions[session]? = some s ∧ s.serving.map (·.conn) = some c) ?_
      ⟨h, fun id a place ha hplace => ?_, [], by rw [List.append_nil],
        fun c ho session cell epoch hmem =>
        absurd hmem List.not_mem_nil⟩
    · rintro v l v' hl hmove ⟨hv, hplaces, new, hsaid, hnew⟩
      obtain ⟨new', hsaid', -⟩ := said_move hmove
      refine ⟨agreed_move hok hl hmove hv, places_move hl hmove hv hplaces, new ++ new',
        by rw [hsaid', hsaid, List.append_assoc], fun c ho session cell epoch hmem => ?_⟩
      rcases List.mem_append.mp hmem with hmem | hmem
      · obtain ⟨t, ueId, grant, hi, hheard, hasked, hs⟩ := hnew c ho session cell epoch hmem
        exact ⟨t, ueId, grant, hi, hheard, by rw [hsaid']; exact List.mem_append_left _ hasked, hs⟩
      · obtain ⟨a, h₀, s, ha, hho, hserving, hconn, hl', hhoid, hcell, hepoch⟩ :=
          commanded_of_mem hmove hsaid' hmem hv
        rw [hl'] at hl
        obtain ⟨rfl, ueId, grant, hheard⟩ := of_stepLets_acked hl
        refine ⟨_, ueId, grant, rfl, hhoid ▸ hheard, ?_, ?_⟩
        · rw [hsaid', ← hhoid, ← hcell, ← hepoch]
          exact List.mem_append_left _ (hv.asked ha hho)
        · rcases hplaces session a s ha hserving with
            ⟨s', hs', hserving'⟩ | ⟨t, ho', session', ht, hheard', -⟩ |
            ⟨t, m, ht, hm, hm'⟩
          · exact ⟨s', hs', by rw [hserving', ← hconn]; rfl⟩
          · cases ht
            rw [hheard] at hheard'
            cases hheard'
          · cases ht
            rw [hheard] at hm
            cases hm
            rcases hm' with ⟨ue, res, h'⟩ | ⟨ue, cell, tmsi, count, mac, h'⟩ <;> cases h'
    · obtain ⟨s, hs, rfl⟩ := session_of_carrier ha
      exact .inl ⟨s, hs, hplace⟩
  refine ⟨hkeep.1, hkeep.2.2, fun t ho session hi hheard id s' place hs' hplace => ?_⟩
  rcases hkeep.2.1 id s'.seat place (carrier_sessions hs') hplace with
    hold | ⟨t', ho', session', hi', hheard', hid, hconn, hasked⟩ | ⟨t', m, hi', hm, hm'⟩
  · exact .inl hold
  · cases hi.symm.trans hi'
    cases hheard.symm.trans hheard'
    exact .inr ⟨hid, hconn, hasked⟩
  · cases hi.symm.trans hi'
    cases hheard.symm.trans hm
    rcases hm' with ⟨ue, res, h'⟩ | ⟨ue, cell, tmsi, count, mac, h'⟩ <;> cases h'

theorem agreed_run {prim : Primitives} {db : Db} {cfg : CoreConfig} {entropy : List Byte}
    (hnew : Core.new prim db cfg entropy = .ok core₀)
    (hrun : Run (fun core i => core.Settled i) core₀ n core) :
    core.carrier.Agreed :=
  hrun.induction (agreed_new hnew) fun _ _ _ _ _ hok hl hmove h => agreed_move hok hl hmove h

/-- Every command names the session, the cell and the epoch of the one request that bears its
number, which was made before it. -/
def CommandsAgree (said : List Said) : Prop :=
  ∀ c ho session cell epoch pre post, said = pre ++ .command c ho session cell epoch :: post →
    ∃ t, .request t ho session cell epoch ∈ pre ∧
      ∀ t' session' cell' epoch', Said.request t' ho session' cell' epoch' ∈ said →
        Said.request t' ho session' cell' epoch' = .request t ho session cell epoch

theorem commandsAgree_of_agreed (h : v.Agreed)
    (hcount : (v.said.filterMap Said.requested).length < 2 ^ 32) : CommandsAgree v.said := by
  obtain ⟨k, hk, -⟩ := h.numbered
  rw [hk, List.length_map, List.length_range] at hcount
  have hnodup : (v.said.filterMap Said.requested).Nodup := by
    rw [hk]
    exact nodup_hoIds hcount
  intro c ho session cell epoch pre post heq
  obtain ⟨t, hasked⟩ := h.ordered c ho session cell epoch pre post heq
  refine ⟨t, hasked, fun t' session' cell' epoch' hmem => ?_⟩
  exact eq_of_filterMap_nodup hnodup hmem (heq ▸ List.mem_append_left _ hasked) rfl rfl

/-- **Handovers agree** in every run in which no service request is accepted for a session
with a handover under way: commands are for what their target was asked, go to the serving
site on the answer of the target, and the session moves to that target only.  The contexts of
a session have epochs of their own in every run whatever. -/
theorem handovers_agree {prim : Primitives} {db : Db} {cfg : CoreConfig} {entropy : List Byte}
    (hnew : Core.new prim db cfg entropy = .ok core₀) :
    (∀ (n : ℕ) (core : Core), Run (fun core i => core.Settled i) core₀ n core →
      ((core.carrier.said.filterMap Said.requested).length < 2 ^ 32 →
        CommandsAgree core.carrier.said) ∧
        ∀ (i : Input) (now : ℕ) (core' : Core), i.Fresh core → core.Settled i →
          core.step i now = .ok core' →
          Heeded core core' i) ∧
      ∀ (n : ℕ) (core : Core), Run (fun _ _ => True) core₀ n core →
        ∀ (i : Input) (now : ℕ) (core₁ : Core) (m : ℕ) (core₂ : Core), i.Fresh core →
          core.step i now = .ok core₁ → core₁.nextSession ≠ core.nextSession →
          Run (LeavesId core.nextSession) core₁ m core₂ →
          ∃ new, core₂.carrier.said = core.carrier.said ++ new ∧
            ((epochsOf core.nextSession new).length < 2 ^ 32 →
              (epochsOf core.nextSession new).Nodup) :=
  ⟨fun _ _ hrun => ⟨commandsAgree_of_agreed (agreed_run hnew hrun),
      fun _ _ _ hfresh hok hstep => (agreed_step (agreed_run hnew hrun) hfresh hok hstep).2⟩,
    fun _ _ _ _ _ _ _ _ hfresh hstep hbegan hrun => epochs_nodup hfresh hstep hbegan hrun⟩

/-- The check that no service request is for a session with a handover under way. -/
def settled (core : Core) : Input → Bool
  | .turn c => match core.heard c with
    | some (.ueService _ _ tmsi _ _) =>
      ((core.byTmsi[tmsi]?).bind fun id => core.sessions[id]?).all fun s => s.ho.isNone
    | _ => true
  | _ => true

theorem settled_of_check (core : Core) (i : Input) (h : core.settled i) : core.Settled i := by
  cases i with
  | turn c =>
    intro ue cell tmsi count mac id s hheard hid hs _ _
    rw [settled, hheard] at h
    dsimp only at h
    rw [hid, Option.bind_some, hs, Option.all_some, Option.isNone_iff_eq_none] at h
    exact h
  | _ => trivial

/-- The site of `sharedDb`, with two cells. -/
def twoCellLogin (proof : List Byte) : Ctl :=
  .siteAuth version "s".toList [⟨7, 0, 0, 0, 9⟩, ⟨8, 0, 0, 0, 9⟩] 1000 (List.replicate 16 8) proof

def firstServiceMac : List Byte :=
  Primitives.plain.srMac (Primitives.plain.simauthV1 firstKey (List.replicate 16 3)).ksInt 67372036
    1

def firstService : Ctl := .ueService 1 7 67372036 1 firstServiceMac

/-- The first subscriber attaches at a site with two cells, which then says what else there is. -/
def attachTwoCells (ms : List Ctl) : List Input :=
  [.arrive 0 (twoCellLogin (Primitives.plain.siteProof firstKey
    (authTranscript siteHello (twoCellLogin (List.replicate 32 0))))).encode, .turn 0,
    .arrive 0 (controlStream siteCtl
      ([.ueAttach 1 7 "111111".toList "c".toList, .ueAuthResponse 1 firstRes] ++ ms)), .turn 0]

/-- A service request, and then a handover to the other cell. -/
def handedOver : List Ctl :=
  [firstService, .ueActive 16843009, .hoRequired 16843009 8,
    .hoRequestAck 1 5 ⟨0, 0, 1, 0, 1, 0, 0⟩,
    .pathSwitch 1 16843009]

/-- A session from its attach over a service request and a handover to the other cell. -/
theorem handovers_agree_completed :
    ∃ (core core₁ core₂ core₃ : Core), core.nextSession = 16843009 ∧
      core.step (.turn 0) 0 = .ok core₁ ∧
      (∃ m, Run (LeavesId core.nextSession) core₁ m core₂) ∧ core₂.step (.turn 0) 0 = .ok core₃ ∧
      core₂.carrier.said = [.accept 0 16843009 1, .accept 0 16843009 2, .request 0 1 16843009 8 3,
        .command 0 1 16843009 8 3] ∧
      ((core₃.sessions[(16843009 : UInt32)]?).bind (·.serving)).map (·.cell) = some 8 ∧
      CommandsAgree core₂.carrier.said ∧ Heeded core₂ core₃ (.turn 0) ∧
      ∃ new, core₂.carrier.said = core.carrier.said ++ new ∧
        ((epochsOf core.nextSession new).length < 2 ^ 32 →
          (epochsOf core.nextSession new).Nodup) := by
  have hruns :
    ((scenarioIf settled .plain sharedDb fixedEntropy (attachTwoCells handedOver)).toOption.any
      fun core => (core.nextSession = 16843009 && core.settled (.turn 0)) &&
        (core.step (.turn 0) 0).toOption.any fun core₁ => core₁.nextSession ≠ 16843009 &&
        (core₁.stepsIf (fun core i => core.settled i && core.nextSession ≠ 16843009)
          (List.replicate 4 (.turn 0)) 0).toOption.any fun core₂ =>
        (core₂.settled (.turn 0) && core₂.carrier.said =
          [.accept 0 16843009 1, .accept 0 16843009 2,
          .request 0 1 16843009 8 3, .command 0 1 16843009 8 3]) &&
        (core₂.step (.turn 0) 0).toOption.any fun core₃ =>
          ((core₃.sessions[(16843009 : UInt32)]?).bind (·.serving)).map (·.cell) = some 8) =
            true := by
    decide +kernel
  obtain ⟨core, hcore, hruns⟩ := exists_of_any hruns
  obtain ⟨hbefore, hruns⟩ := Bool.and_eq_true_iff.mp hruns
  obtain ⟨hid, hsettled⟩ := Bool.and_eq_true_iff.mp hbefore
  obtain ⟨core₁, hstep, hruns⟩ := exists_of_any hruns
  obtain ⟨hbegan, hruns⟩ := Bool.and_eq_true_iff.mp hruns
  obtain ⟨core₂, hsteps, hruns⟩ := exists_of_any hruns
  obtain ⟨hthere, hruns⟩ := Bool.and_eq_true_iff.mp hruns
  obtain ⟨hsettled₂, hsaid⟩ := Bool.and_eq_true_iff.mp hthere
  obtain ⟨core₃, hstep₂, hcell⟩ := exists_of_any hruns
  have hid : core.nextSession = 16843009 := of_decide_eq_true hid
  have hsaid := of_decide_eq_true hsaid
  have hfresh : ∀ i ∈ List.replicate 4 (Input.turn 0), ∀ core, i.Fresh core :=
    fresh_of_connectsNone rfl
  obtain ⟨db, core₀, n, -, hnew, hrun, -⟩ :=
    run_of_scenario (fun core i => core.Settled i) rfl settled_of_check hcore
  obtain ⟨-, hepochs⟩ := handovers_agree hnew
  obtain ⟨m, -, hrun₂⟩ :=
    run_of_stepsIf _ (hrun.step (i := .turn 0) trivial (settled_of_check _ _ hsettled) hstep)
    hfresh (fun core i h => settled_of_check _ _ (Bool.and_eq_true_iff.mp h).1) hsteps
  obtain ⟨k, -, hleaves⟩ := run_of_stepsIf (LeavesId core.nextSession) .refl hfresh
    (fun core' i h hsame => absurd (hsame.trans hid)
      (of_decide_eq_true (Bool.and_eq_true_iff.mp h).2)) hsteps
  obtain ⟨hcommands, hheeded⟩ := (handovers_agree hnew).1 _ core₂ hrun₂
  refine ⟨core, core₁, core₂, core₃, hid, hstep, ⟨k, hleaves⟩, hstep₂, hsaid,
    of_decide_eq_true hcell,
    hcommands (by rw [hsaid]; decide), ?_, ?_⟩
  · exact hheeded _ 0 core₃ trivial (settled_of_check _ _ hsettled₂) hstep₂
  · obtain ⟨_, _, n, -, hnew', hrun', -⟩ :=
      run_of_scenario (fun _ _ => True) rfl (fun _ _ _ => trivial) hcore
    exact (handovers_agree hnew').2 _ core hrun' (.turn 0) 0 core₁ k core₂ trivial hstep
      (hid ▸ of_decide_eq_true hbegan) hleaves

/-- The phone is to go to the other cell, and comes back with a service request before that
cell has answered. -/
def servedMeanwhile : List Ctl :=
  [.ueActive 16843009, .hoRequired 16843009 8, firstService,
    .hoRequestAck 1 5 ⟨0, 0, 1, 0, 1, 0, 0⟩]

/-- The target was told epoch 2, and the phone is told epoch 3. -/
theorem not_commandsAgree_served :
    ∃ (prim : Primitives) (text : Str) (db : Db) (cfg : CoreConfig) (entropy : List Byte) (core₀ core : Core)
      (n : ℕ), Db.parse text = .ok db ∧ Core.new prim db cfg entropy = .ok core₀ ∧
        Run (fun _ _ => True) core₀ n core ∧
          (core.carrier.said.filterMap Said.requested).length < 2 ^ 32 ∧
        ¬ CommandsAgree core.carrier.said := by
  have hsaid : ((scenario .plain sharedDb fixedEntropy
      (attachTwoCells servedMeanwhile ++ List.replicate 5 (.turn 0))).toOption.any fun core =>
        core.carrier.said = [.accept 0 16843009 1, .request 0 1 16843009 8 2,
          .accept 0 16843009 3, .command 0 1 16843009 8 3]) = true := by decide +kernel
  obtain ⟨core, hcore, hsaid⟩ := exists_of_any hsaid
  have hsaid := of_decide_eq_true hsaid
  obtain ⟨db, core₀, n, hparse, hnew, hrun, -⟩ :=
    run_of_scenario (fun _ _ => True) rfl (fun _ _ _ => trivial) hcore
  refine ⟨.plain, sharedDb, db, {}, fixedEntropy, core₀, core, n, hparse, hnew, hrun, ?_,
    fun hagree => ?_⟩
  · rw [hsaid]
    decide
  · rw [hsaid] at hagree
    obtain ⟨t, -, hone⟩ := hagree 0 1 16843009 8 3 [.accept 0 16843009 1, .request 0 1 16843009 8 2,
      .accept 0 16843009 3] [] rfl
    have hepoch := hone 0 16843009 8 2 (by decide)
    cases hepoch

end EvansComputer.Cell.Core
