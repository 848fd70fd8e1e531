import EvansComputer.Cell.ReplayWindow
import Mathlib.Data.List.Nodup
import Mathlib.Logic.Function.Basic

/-!
# Two ends and a hostile network

Both ends of a sealed channel hold one key.  Between them is a network that loses,
repeats, reorders and invents: any bytes at all may be handed to a receiver.  What
it cannot do is make a tag, so a delivery is admissible where the bytes decrypt only
to something one of the two ends has sealed.

`Endpoint` is what a channel looks like from there, and `Endpoint.Laws` what a channel
has to keep for its receiver to be described by the list of counters it has accepted.
The three channels of the cell network are its instances; they differ in what a
receiver finds fresh, and in how much of the counter goes on the wire.
-/

namespace EvansComputer.Cell

/-! ## Ends of a channel -/

/-- What a receiver asks the cipher about. -/
structure Query where
  nonce : List Byte
  ct : List Byte
  aad : List Byte

/-- An end of a channel whose messages are addressed by `σ`. -/
structure Endpoint (C σ : Type) where
  sealing : C → σ → List Byte → Sealing
  «seal» : C → σ → List Byte → C × List Byte
  /-- The counter that the bytes of a message name. -/
  counter : List Byte → UInt64
  query : C → σ → List Byte → Query
  «open» : C → σ → List Byte → C × Except CryptoError (List Byte)

/-! ## The link -/

/-- A message as it was sealed. -/
structure Sent (σ : Type) where
  arg : σ
  call : Sealing
  wire : List Byte

/-- A message as it was opened. -/
structure Opened where
  counter : UInt64
  msg : List Byte

/-- Both ends, each under the direction it sends in, and what has happened in each
direction. -/
structure Link (C σ : Type) where
  ends : Dir → C
  sent : Dir → List (Sent σ)
  opened : Dir → List Opened

inductive LinkEvent (σ : Type) where
  | seal (d : Dir) (arg : σ) (msg : List Byte)
  | deliver (d : Dir) (arg : σ) (bytes : List Byte)

namespace Link

variable {C σ : Type}

/-- Two fresh ends. -/
def new (start : Dir → C) : Link C σ := ⟨start, fun _ => [], fun _ => []⟩

def step (E : Endpoint C σ) (l : Link C σ) : LinkEvent σ → Link C σ
  | .seal d x m =>
    { l with
      ends := Function.update l.ends d (E.seal (l.ends d) x m).1
      sent := Function.update l.sent d
        (l.sent d ++ [⟨x, E.sealing (l.ends d) x m, (E.seal (l.ends d) x m).2⟩]) }
  | .deliver d x b =>
    { l with
      ends := Function.update l.ends d.other (E.open (l.ends d.other) x b).1
      opened :=
        match (E.open (l.ends d.other) x b).2 with
        | .ok m => Function.update l.opened d (l.opened d ++ [⟨E.counter b, m⟩])
        | .error _ => l.opened }

/-- An end seals while its counter can go up; bytes may be anything that no one but
the two ends has sealed. -/
def Admissible (E : Endpoint C σ) (aead : Aead) (l : Link C σ) : LinkEvent σ → Prop
  | .seal d _ _ => (l.sent d).length + 1 < UInt64.size
  | .deliver d x b =>
    ∀ m, aead.decrypt (E.query (l.ends d.other) x b).nonce (E.query (l.ends d.other) x b).ct
        (E.query (l.ends d.other) x b).aad = some m →
      ∃ d', ∃ s ∈ l.sent d',
        s.call = ⟨(E.query (l.ends d.other) x b).nonce, m, (E.query (l.ends d.other) x b).aad⟩

/-- The links that a schedule of seals and deliveries leads to. -/
inductive Reachable (E : Endpoint C σ) (aead : Aead) (start : Dir → C) : Link C σ → Prop
  | new : Reachable E aead start (Link.new start)
  | step {l : Link C σ} (ev : LinkEvent σ) :
      Reachable E aead start l → Admissible E aead l ev → Reachable E aead start (l.step E ev)

/-- A link after a schedule. -/
def run (E : Endpoint C σ) (l : Link C σ) (evs : List (LinkEvent σ)) : Link C σ :=
  evs.foldl (fun l ev => l.step E ev) l

/-- The nonces of everything sealed under the key of the link. -/
def nonces (l : Link C σ) : List (List Byte) :=
  (l.sent .up ++ l.sent .down).map (·.call.nonce)

/-- What was opened is what was sealed under that number, and no number twice. -/
structure DeliversOnce (l : Link C σ) : Prop where
  genuine : ∀ d, ∀ o ∈ l.opened d,
    ∃ s, (l.sent d)[o.counter.toNat]? = some s ∧ s.call.msg = o.msg
  once : ∀ d, ((l.opened d).map (·.counter)).Nodup

/-- A sealed message that is not yet open and less than 64 below everything that is
opens when it comes. -/
def AcceptsRecent (E : Endpoint C σ) (l : Link C σ) : Prop :=
  ∀ d i s, (l.sent d)[i]? = some s → (∀ o ∈ l.opened d, o.counter.toNat ≠ i) →
    (∀ o ∈ l.opened d, o.counter.toNat < i + 64) →
    (E.open (l.ends d.other) s.arg s.wire).2 = .ok s.call.msg

/-- What was opened, in order, is the beginning of what was sealed. -/
def InOrder (l : Link C σ) : Prop :=
  ∀ d, (l.opened d).map (·.msg) <+: (l.sent d).map (·.call.msg)

end Link
/-! ## What a channel keeps -/

/-- A channel whose receiver is described by the counters it has accepted.

`count` is how often an end has sealed and `wire` what of that goes on the wire.
`Seen` says of a list that it is what the receiver has accepted, last first, and
`Fresh` which counter it takes next. -/
structure Endpoint.Laws {C σ : Type} (E : Endpoint C σ) (aead : Aead) where
  Ready : Dir → C → Prop
  count : C → UInt64
  wire : UInt64 → UInt64
  Seen : C → List ℕ → Prop
  Fresh : List ℕ → ℕ → Prop
  wire_le : ∀ n, (wire n).toNat ≤ n.toNat
  nonce_sealing : ∀ {d ch} x m, Ready d ch → (E.sealing ch x m).nonce = nonce d (wire (count ch))
  msg_sealing : ∀ ch x m, (E.sealing ch x m).msg = m
  ready_seal : ∀ {d ch} x m, Ready d ch → Ready d (E.seal ch x m).1
  count_seal : ∀ ch x m, count (E.seal ch x m).1 = count ch + 1
  seen_seal : ∀ {ch seen} x m, Seen ch seen → Seen (E.seal ch x m).1 seen
  ready_open : ∀ {d ch} x b, Ready d ch → Ready d (E.open ch x b).1
  count_open : ∀ ch x b, count (E.open ch x b).1 = count ch
  seen_error : ∀ {ch seen x b err},
    Seen ch seen → (E.open ch x b).2 = .error err → Seen (E.open ch x b).1 seen
  open_ok : ∀ {d ch seen x b m}, Ready d ch → Seen ch seen → (E.open ch x b).2 = .ok m →
    aead.decrypt (E.query ch x b).nonce (E.query ch x b).ct (E.query ch x b).aad = some m ∧
      (E.query ch x b).nonce = nonce d.other (E.counter b) ∧
      Fresh seen (E.counter b).toNat ∧
      ((E.counter b).toNat + 1 < UInt64.size →
        Seen (E.open ch x b).1 ((E.counter b).toNat :: seen))
  open_seal : ∀ {d tx rx seen} x m, Ready d tx → Ready d.other rx → Seen rx seen →
    Fresh seen (wire (count tx)).toNat → (E.open rx x (E.seal tx x m).2).2 = .ok m
  nodup_seen : ∀ {ch seen}, Seen ch seen → seen.Nodup

namespace Link

variable {C σ : Type} {E : Endpoint C σ} {aead : Aead} {start : Dir → C} {l : Link C σ}

/-- What has been accepted in a direction, last first. -/
def accepted (l : Link C σ) (d : Dir) : List ℕ :=
  ((l.opened d).map (·.counter.toNat)).reverse

/-- Where a sealed message comes from: the `i`-th seal of an end of its direction. -/
def SealedAs (L : E.Laws aead) (d : Dir) (i : ℕ) (s : Sent σ) : Prop :=
  ∃ tx, L.Ready d tx ∧ (L.count tx).toNat = i ∧ s.call = E.sealing tx s.arg s.call.msg ∧
    s.wire = (E.seal tx s.arg s.call.msg).2

/-- What every reachable link keeps. -/
structure Sound (L : E.Laws aead) (l : Link C σ) : Prop where
  ready : ∀ d, L.Ready d (l.ends d)
  count : ∀ d, (L.count (l.ends d)).toNat = (l.sent d).length
  sent : ∀ d i s, (l.sent d)[i]? = some s → SealedAs L d i s
  opened : ∀ d, ∀ o ∈ l.opened d, ∃ (i : ℕ) (n : UInt64) (s : Sent σ),
    (l.sent d)[i]? = some s ∧ n.toNat = i ∧ L.wire n = o.counter ∧ s.call.msg = o.msg
  seen : ∀ d, L.Seen (l.ends d.other) (l.accepted d)

variable {L : E.Laws aead}

theorem SealedAs.nonce_eq {d : Dir} {i : ℕ} {s : Sent σ} (h : SealedAs L d i s) :
    ∃ n : UInt64, n.toNat = i ∧ s.call.nonce = nonce d (L.wire n) := by
  obtain ⟨tx, hready, hcount, hcall, -⟩ := h
  exact ⟨L.count tx, hcount, by rw [hcall, L.nonce_sealing _ _ hready]⟩

theorem sound_new (hready : ∀ d, L.Ready d (start d)) (hcount : ∀ d, L.count (start d) = 0)
    (hseen : ∀ d, L.Seen (start d) []) : Sound L (Link.new start) where
  ready := hready
  count d := by
    rw [show (Link.new start : Link C σ).ends d = start d from rfl, hcount]
    rfl
  sent _ _ _ h := by simp [Link.new] at h
  opened _ _ h := absurd h List.not_mem_nil
  seen d := hseen d.other

/-- Sealing changes one end, and of that only the count. -/
theorem Sound.seal (h : Sound L l) {d : Dir} {x : σ} {m : List Byte}
    (hroom : (l.sent d).length + 1 < UInt64.size) : Sound L (l.step E (.seal d x m)) := by
  have hends : ∀ e, (l.step E (.seal d x m)).ends e
      = if e = d then (E.seal (l.ends d) x m).1 else l.ends e := by
    intro e
    exact Function.update_apply l.ends d _ e
  have hsent : ∀ e, (l.step E (.seal d x m)).sent e
      = if e = d then l.sent d ++ [⟨x, E.sealing (l.ends d) x m, (E.seal (l.ends d) x m).2⟩]
        else l.sent e := by
    intro e
    exact Function.update_apply l.sent d _ e
  have hgrow : ∀ (e : Dir) (i : ℕ) (s : Sent σ), (l.sent e)[i]? = some s →
      ((l.step E (.seal d x m)).sent e)[i]? = some s := by
    intro e i s hs
    rw [hsent]
    by_cases he : e = d
    · subst he
      rw [if_pos rfl, List.getElem?_append_left (List.getElem?_eq_some_iff.mp hs).1, hs]
    · rw [if_neg he, hs]
  refine ⟨fun e => ?_, fun e => ?_, fun e i s hs => ?_, fun e o ho => ?_, fun e => ?_⟩
  · rw [hends]
    split_ifs with he
    · subst he
      exact L.ready_seal x m (h.ready e)
    · exact h.ready e
  · rw [hends, hsent]
    split_ifs with he
    · have hcount := h.count d
      rw [L.count_seal, UInt64.toNat_add, UInt64.toNat_one, hcount, List.length_append]
      exact Nat.mod_eq_of_lt hroom
    · exact h.count e
  · rw [hsent] at hs
    split_ifs at hs with he
    · subst he
      rcases Nat.lt_or_ge i (l.sent e).length with hi | hi
      · exact h.sent e i s (by rwa [List.getElem?_append_left hi] at hs)
      · rw [List.getElem?_append_right hi, List.getElem?_singleton] at hs
        split_ifs at hs with hlast
        cases hs
        refine ⟨l.ends e, h.ready e, ?_, ?_, ?_⟩
        · rw [h.count e]
          omega
        · rw [L.msg_sealing]
        · rw [L.msg_sealing]
    · exact h.sent e i s hs
  · obtain ⟨i, n, s, hs, hrest⟩ := h.opened e o ho
    exact ⟨i, n, s, hgrow e i s hs, hrest⟩
  · rw [hends]
    split_ifs with he
    · exact L.seen_seal x m (he ▸ h.seen e)
    · exact h.seen e

theorem sent_seal (l : Link C σ) (d : Dir) (x : σ) (m : List Byte) :
    (l.step E (.seal d x m)).sent d
      = l.sent d ++ [⟨x, E.sealing (l.ends d) x m, (E.seal (l.ends d) x m).2⟩] :=
  Function.update_self d _ l.sent

theorem ends_deliver (l : Link C σ) (d e : Dir) (x : σ) (b : List Byte) :
    (l.step E (.deliver d x b)).ends e
      = if e = d.other then (E.open (l.ends d.other) x b).1 else l.ends e :=
  Function.update_apply l.ends d.other _ e

section

variable (h : Sound L l)
include h

/-- A delivery leaves both ends in place and their counts alone. -/
theorem Sound.ends_deliver {d : Dir} (x : σ) (b : List Byte) :
    (∀ e, L.Ready e ((l.step E (.deliver d x b)).ends e)) ∧
      ∀ e, (L.count ((l.step E (.deliver d x b)).ends e)).toNat = (l.sent e).length := by
  constructor
  · intro e
    rw [Link.ends_deliver]
    split_ifs with he
    · subst he
      exact L.ready_open x b (h.ready d.other)
    · exact h.ready e
  · intro e
    rw [Link.ends_deliver]
    split_ifs with he
    · subst he
      rw [L.count_open]
      exact h.count d.other
    · exact h.count e

/-- A delivery that fails leaves what the receiver has seen. -/
theorem Sound.deliver_error {d : Dir} {x : σ} {b : List Byte} {err : CryptoError}
    (herr : (E.open (l.ends d.other) x b).2 = .error err) :
    Sound L (l.step E (.deliver d x b)) := by
  have hopened : (l.step E (.deliver d x b)).opened = l.opened := by
    simp only [Link.step, herr]
  obtain ⟨hready, hcount⟩ := h.ends_deliver x b (d := d)
  refine ⟨hready, hcount, h.sent, fun e o ho => ?_, fun e => ?_⟩
  · rw [hopened] at ho
    exact h.opened e o ho
  · rw [Link.ends_deliver, accepted, hopened]
    split_ifs with he
    · rw [Dir.other_inj he]
      exact L.seen_error (h.seen d) herr
    · exact h.seen e

/-- What opens was sealed in that direction, under the counter that its bytes name. -/
theorem Sound.sealed_of_open {d : Dir} {x : σ} {b m : List Byte}
    (hauth : Admissible E aead l (.deliver d x b)) (hok : (E.open (l.ends d.other) x b).2 = .ok m) :
    ∃ (i : ℕ) (n : UInt64) (s : Sent σ), (l.sent d)[i]? = some s ∧ n.toNat = i ∧
      L.wire n = E.counter b ∧ s.call.msg = m := by
  obtain ⟨hdec, hnonce, -, -⟩ := L.open_ok (h.ready d.other) (h.seen d) hok
  obtain ⟨d', s, hs, hcall⟩ := hauth m hdec
  obtain ⟨i, hi⟩ := List.getElem?_of_mem hs
  obtain ⟨n, hn, hsn⟩ := (h.sent d' i s hi).nonce_eq
  -- the nonce names the direction and the counter
  rw [hcall, hnonce, Dir.other_other] at hsn
  obtain ⟨rfl, hc⟩ := nonce_inj hsn
  exact ⟨i, n, s, hi, hn, hc.symm, by rw [hcall]⟩

theorem Sound.deliver_ok {d : Dir} {x : σ} {b m : List Byte}
    (hauth : Admissible E aead l (.deliver d x b)) (hok : (E.open (l.ends d.other) x b).2 = .ok m) :
    Sound L (l.step E (.deliver d x b)) := by
  have hopened : (l.step E (.deliver d x b)).opened
      = Function.update l.opened d (l.opened d ++ [⟨E.counter b, m⟩]) := by
    simp only [Link.step, hok]
  obtain ⟨i, n, s, hs, hn, hwire, hmsg⟩ := h.sealed_of_open hauth hok
  have hroom : (E.counter b).toNat + 1 < UInt64.size := by
    have hlt := (List.getElem?_eq_some_iff.mp hs).1
    have hcount := h.count d
    have hsize := (L.count (l.ends d)).toNat_lt
    have hle := L.wire_le n
    rw [hwire] at hle
    change (L.count (l.ends d)).toNat < UInt64.size at hsize
    omega
  obtain ⟨hready, hcount⟩ := h.ends_deliver x b (d := d)
  refine ⟨hready, hcount, h.sent, fun e o ho => ?_, fun e => ?_⟩
  · rw [hopened, Function.update_apply] at ho
    split_ifs at ho with he
    · subst he
      rcases List.mem_append.mp ho with ho | ho
      · exact h.opened e o ho
      · rw [List.mem_singleton.mp ho]
        exact ⟨i, n, s, hs, hn, hwire, hmsg⟩
    · exact h.opened e o ho
  · rw [Link.ends_deliver, accepted, hopened, Function.update_apply]
    split_ifs with he hd hd
    · subst hd
      rw [List.map_append, List.reverse_append]
      exact (L.open_ok (h.ready e.other) (h.seen e) hok).2.2.2 hroom
    · exact absurd (Dir.other_inj he) hd
    · exact absurd (congrArg Dir.other hd) he
    · exact h.seen e

omit h in
/-- **Every schedule keeps a link sound.** -/
theorem Reachable.sound (hready : ∀ d, L.Ready d (start d)) (hcount : ∀ d, L.count (start d) = 0)
    (hseen : ∀ d, L.Seen (start d) []) (h : Reachable E aead start l) : Sound L l := by
  induction h with
  | new => exact sound_new hready hcount hseen
  | @step l ev _ hadm ih =>
    cases ev with
    | «seal» d x m => exact ih.seal hadm
    | deliver d x b =>
      cases hres : (E.open (l.ends d.other) x b).2 with
      | error err => exact ih.deliver_error hres
      | ok m => exact ih.deliver_ok hadm hres

/-! ## What follows for a sound link -/

/-- Nonces repeat no sooner than the counter on the wire does. -/
theorem Sound.nonces_nodup (limit : ℕ) (hlimit : ∀ d, (l.sent d).length ≤ limit)
    (hwire : ∀ {n n' : UInt64}, n.toNat < limit → n'.toNat < limit →
      L.wire n = L.wire n' → n = n') :
    l.nonces.Nodup := by
  have hone : ∀ d, ((l.sent d).map (·.call.nonce)).Nodup := by
    intro d
    refine List.nodup_iff_injective_getElem.mpr fun i j hij => ?_
    dsimp only at hij
    rw [List.getElem_map, List.getElem_map] at hij
    have hi : i.val < (l.sent d).length := by simpa using i.isLt
    have hj : j.val < (l.sent d).length := by simpa using j.isLt
    obtain ⟨n, hn, hsn⟩ := (h.sent d i _ (List.getElem?_eq_getElem hi)).nonce_eq
    obtain ⟨n', hn', hsn'⟩ := (h.sent d j _ (List.getElem?_eq_getElem hj)).nonce_eq
    rw [hsn, hsn'] at hij
    have hle := hlimit d
    have heq := hwire (by omega) (by omega) (nonce_inj hij).2
    exact Fin.ext (by rw [← hn, ← hn', heq])
  rw [nonces, List.map_append]
  refine List.Nodup.append (hone _) (hone _) ?_
  intro a ha ha'
  obtain ⟨s, hs, rfl⟩ := List.mem_map.mp ha
  obtain ⟨s', hs', heq⟩ := List.mem_map.mp ha'
  obtain ⟨i, hi⟩ := List.getElem?_of_mem hs
  obtain ⟨i', hi'⟩ := List.getElem?_of_mem hs'
  obtain ⟨n, -, hsn⟩ := (h.sent _ i s hi).nonce_eq
  obtain ⟨n', -, hsn'⟩ := (h.sent _ i' s' hi').nonce_eq
  rw [hsn, hsn'] at heq
  exact nomatch (nonce_inj heq).1

/-- No counter is accepted twice. -/
theorem Sound.once (d : Dir) : ((l.opened d).map (·.counter)).Nodup := by
  have hnodup := List.nodup_reverse.mp (L.nodup_seen (h.seen d))
  have hmap : (l.opened d).map (·.counter.toNat)
      = ((l.opened d).map (·.counter)).map UInt64.toNat := by
    rw [List.map_map]
    rfl
  rw [hmap] at hnodup
  exact List.Nodup.of_map _ hnodup

/-- Where no counter has come round yet, what opens is what was sealed under that
number, once. -/
theorem Sound.deliversOnce (hwire : ∀ d (n : UInt64), n.toNat < (l.sent d).length → L.wire n = n) :
    l.DeliversOnce where
  genuine d o ho := by
    obtain ⟨i, n, s, hs, hn, hc, hm⟩ := h.opened d o ho
    have hlt := (List.getElem?_eq_some_iff.mp hs).1
    rw [hwire d n (by omega)] at hc
    exact ⟨s, by rw [← hc, hn, hs], hm⟩
  once := h.once

/-- Where no counter has come round yet, a receiver with a window takes what is recent. -/
theorem Sound.acceptsRecent (hwire : ∀ d (n : UInt64), n.toNat < (l.sent d).length → L.wire n = n)
    (hfresh : ∀ {seen n}, n ∉ seen → (∀ k ∈ seen, k < n + 64) → L.Fresh seen n) :
    l.AcceptsRecent E := by
  intro d i s hs hnew hnear
  obtain ⟨tx, hready, hcount, -, hsealed⟩ := h.sent d i s hs
  have hlt := (List.getElem?_eq_some_iff.mp hs).1
  have hmem : ∀ k, k ∈ l.accepted d ↔ ∃ o ∈ l.opened d, o.counter.toNat = k := by
    intro k
    rw [accepted, List.mem_reverse, List.mem_map]
  have hnum : (L.wire (L.count tx)).toNat = i := by
    rw [hwire d _ (by omega), hcount]
  rw [hsealed]
  refine L.open_seal s.arg s.call.msg hready (h.ready d.other) (h.seen d) (hfresh ?_ ?_)
  · rw [hnum, hmem]
    rintro ⟨o, ho, heq⟩
    exact hnew o ho heq
  · intro k hk
    obtain ⟨o, ho, rfl⟩ := (hmem k).mp hk
    rw [hnum]
    exact hnear o ho

/-- A receiver that takes the next counter only opens a beginning of what was sealed. -/
theorem Sound.inOrder (hwire : ∀ d (n : UInt64), n.toNat < (l.sent d).length → L.wire n = n)
    (hseen : ∀ {ch seen}, L.Seen ch seen → ∃ k, seen = (List.range k).reverse) : l.InOrder := by
  intro d
  obtain ⟨k, hk⟩ := hseen (h.seen d)
  have hcounters : (l.opened d).map (·.counter.toNat) = List.range k :=
    List.reverse_injective hk
  have hmsg : ∀ (j : ℕ) (o : Opened), (l.opened d)[j]? = some o →
      ((l.sent d).map (·.call.msg))[j]? = some o.msg := by
    intro j o hj
    have hnum : o.counter.toNat = j := by
      have hget : ((l.opened d).map (·.counter.toNat))[j]? = some o.counter.toNat := by
        rw [List.getElem?_map, hj]
        rfl
      rw [hcounters] at hget
      obtain ⟨hjk, heq⟩ := List.getElem?_eq_some_iff.mp hget
      rw [← heq, List.getElem_range]
    obtain ⟨s, hs, hm⟩ := (h.deliversOnce hwire).genuine d o (List.mem_of_getElem? hj)
    rw [List.getElem?_map, ← hnum, hs]
    exact congrArg some hm
  rw [List.prefix_iff_getElem?]
  intro j hj
  rw [List.length_map] at hj
  rw [hmsg j _ (List.getElem?_eq_getElem hj), List.getElem_map]

/-- A counter that comes round gives a nonce again. -/
theorem Sound.nonce_again {d : Dir} {n n' : UInt64} (hlt : n < n')
    (hlen : n'.toNat < (l.sent d).length) (hwire : L.wire n = L.wire n') : ¬ l.nonces.Nodup := by
  have hlt' : n.toNat < n'.toNat := UInt64.lt_iff_toNat_lt.mp hlt
  have hget : ∀ k : UInt64, k.toNat < (l.sent d).length →
      ((l.sent d).map (·.call.nonce))[k.toNat]? = some (nonce d (L.wire k)) := by
    intro k hk
    obtain ⟨m, hm, hnonce⟩ := (h.sent d _ _ (List.getElem?_eq_getElem hk)).nonce_eq
    rw [List.getElem?_map, List.getElem?_eq_getElem hk, Option.map_some, hnonce,
      UInt64.toNat_inj.mp hm]
  have hone : ¬ ((l.sent d).map (·.call.nonce)).Nodup := by
    intro hnodup
    have heq := (hget n (by omega)).trans ((hwire ▸ hget n' hlen).symm)
    have hlen' : n.toNat < ((l.sent d).map (·.call.nonce)).length := by
      rw [List.length_map]
      omega
    exact Nat.ne_of_lt hlt' ((List.getElem?_inj hlen' hnodup).mp heq)
  intro hnodup
  rw [nonces, List.map_append] at hnodup
  cases d with
  | up => exact hone (List.Nodup.of_append_left hnodup)
  | down => exact hone (List.Nodup.of_append_right hnodup)

end

end EvansComputer.Cell.Link
