import EvansComputer.Cell.Ue

/-!
# The phone's keys and its cells

A protected uplink frame is of use only to the cell whose key sealed it.  The phone takes the
key from one field and the address from another: from its state, which names the serving cell,
and from the table of the cells it has heard.  The invariant is that the state names the cell of
the key (`Inv.keyed`), and then the two agree as long as the cell is in the table.

Where it is not, and while the phone detaches, when its state names no cell, the frame goes to the
first cell of the table that was heard lately.
-/

namespace EvansComputer.Cell.Ue

open Exec

variable {prim : Primitives} {L : Type} {radio : Radio L} {ue ue' : Ue prim L} {now : Now}

variable {addr cell source : UInt32}

/-- The cell whose key is in use. -/
def keyedCell : St → Option UInt32
  | .secure cell _ _ => some cell
  | .connected cell => some cell
  | .handingOver _ target _ _ _ => some target
  | _ => none

/-- Every frame that was sent went to the address of the cell whose key sealed it, and the state
names the cell of the key. -/
structure Inv (ue : Ue prim L) : Prop where
  addressed : ∀ x ∈ ue.sends, x.recorded = some x.dst
  keyed : ∀ k, ue.cipher = some k → ∀ cell, keyedCell ue.st = some cell → k.cell = cell

/-- The cell whose key is in use is in the table. -/
def Ready (ue : Ue prim L) : Prop := ∀ cell ∈ keyedCell ue.st, (ue.recorded cell).isSome

/-- Frames go to the cell of the key. -/
def Aims (ue : Ue prim L) (now : Now) : Prop :=
  ∀ k, ue.cipher = some k → ∀ addr, ue.ulAddr now = some addr → ue.recorded k.cell = some addr

namespace Inv

/-- Without a key only what was sent counts. -/
theorem of_cipher_none (h : Inv ue) (hsends : ue'.sends = ue.sends) (hcipher : ue'.cipher = none) :
    Inv ue' where
  addressed := by
    rw [hsends]
    exact h.addressed
  keyed := fun k hk => by
    rw [hcipher] at hk
    cases hk

/-- And so it is where the state names no cell for it. -/
theorem of_unkeyed (h : Inv ue) (hsends : ue'.sends = ue.sends) (hst : keyedCell ue'.st = none) :
    Inv ue' where
  addressed := by
    rw [hsends]
    exact h.addressed
  keyed := fun k hk cell hcell => by
    rw [hst] at hcell
    cases hcell

/-- One more frame is sent. -/
theorem send (h : Inv ue) {x : Send prim} (hx : x.recorded = some x.dst)
    (hsends : ue'.sends = ue.sends ++ [x]) (hkeyed : ∀ k, ue'.cipher = some k → ∀ cell,
      keyedCell ue'.st = some cell → k.cell = cell) : Inv ue' where
  addressed := by
    intro y hy
    rw [hsends, List.mem_append, List.mem_singleton] at hy
    rcases hy with hy | rfl
    · exact h.addressed y hy
    · exact hx
  keyed := hkeyed

end Inv

theorem Ready.of_unkeyed (h : keyedCell ue.st = none) : Ready ue := fun cell hcell => by
  rw [h] at hcell
  cases hcell

/-! ## Sending -/

/-- What the loop of `pump_ul` leaves alone. -/
structure Pumped (ue ue' : Ue prim L) : Prop where
  inv : Inv ue'
  st : ue'.st = ue.st
  cells : ue'.cells = ue.cells
  cipher : ∀ k', ue'.cipher = some k' → ∃ k, ue.cipher = some k ∧ k'.cell = k.cell

theorem Pumped.refl (h : Inv ue) : Pumped ue ue := ⟨h, rfl, rfl, fun k hk => ⟨k, hk, rfl⟩⟩

theorem Pumped.trans {ue'' : Ue prim L} (h : Pumped ue ue') (h' : Pumped ue' ue'') :
    Pumped ue ue'' where
  inv := h'.inv
  st := h'.st.trans h.st
  cells := h'.cells.trans h.cells
  cipher := fun k hk => by
    obtain ⟨k', hk', hcell'⟩ := h'.cipher k hk
    obtain ⟨k'', hk'', hcell''⟩ := h.cipher k' hk'
    exact ⟨k'', hk'', hcell'.trans hcell''⟩

theorem Pumped.recorded (h : Pumped ue ue') (cell : UInt32) :
    ue'.recorded cell = ue.recorded cell := by
  unfold Ue.recorded
  rw [h.cells]

theorem Pumped.ready (h : Pumped ue ue') (hready : Ready ue) : Ready ue' := fun cell hcell => by
  rw [h.recorded]
  exact hready cell (h.st ▸ hcell)

/-- Loading a frame touches the queues. -/
theorem load_meets (h : Inv ue) (b : ℕ) :
    Meets False (ue.load b) fun x => Pumped ue x.1 ∧ x.1.cipher = ue.cipher := by
  unfold load
  generalize takeCtl b 0 [] ue.ctlQ = x
  obtain ⟨items, size, ctlQ⟩ := x
  dsimp only
  split
  · refine meets_any.bind fun l _ => ?_
    exact meets_pure ⟨⟨⟨h.addressed, h.keyed⟩, rfl, rfl, fun k hk => ⟨k, hk, rfl⟩⟩, rfl⟩
  · exact meets_ok ⟨⟨⟨h.addressed, h.keyed⟩, rfl, rfl, fun k hk => ⟨k, hk, rfl⟩⟩, rfl⟩

theorem sendFrame_pumped (h : Inv ue) {k : CellCipher prim} (hk : ue.cipher = some k)
    (haddr : ue.recorded k.cell = some addr) (g : Grant) (slot : ℕ) (items : List Item) :
    Pumped ue (ue.sendFrame radio now addr g slot items k) where
  inv := by
    refine h.send (x := ⟨addr, ⟨k, ue.cfg.address, addr, items⟩, ue.recorded k.cell⟩) haddr rfl ?_
    intro k' hk' cell hcell
    have heq : k.seal ue.cfg.address addr (encodeItems items) = k' := Option.some.inj hk'
    rw [← heq]
    exact h.keyed k hk cell hcell
  st := rfl
  cells := rfl
  cipher := fun k' hk' => by
    have heq : k.seal ue.cfg.address addr (encodeItems items) = k' := Option.some.inj hk'
    exact ⟨k, hk, by rw [← heq]; rfl⟩

/-- **One turn of the loop.** -/
theorem pumpFrame_meets (h : Inv ue)
    (haddr : ∀ k, ue.cipher = some k → ue.recorded k.cell = some addr) (g : Grant) :
    Meets False (ue.pumpFrame radio now addr g) fun x => Pumped ue x.1 := by
  unfold pumpFrame
  dsimp only
  split
  · exact meets_ok (Pumped.refl h)
  · refine meets_any.bind fun r _ => ?_
    cases r with
    | none => exact meets_pure (Pumped.refl h)
    | some r =>
      obtain ⟨slot, run⟩ := r
      refine (load_meets h _).bind fun x hx => ?_
      obtain ⟨ue', items⟩ := x
      obtain ⟨hpumped, hcipher⟩ := hx
      dsimp only at hpumped hcipher ⊢
      split
      · exact meets_pure hpumped
      · cases hk : ue'.cipher with
        | none => exact meets_pure hpumped
        | some k =>
          refine meets_pure (hpumped.trans (sendFrame_pumped hpumped.inv hk ?_ g slot items))
          rw [hpumped.recorded]
          exact haddr k (hcipher ▸ hk)

theorem pumpLoop_meets (h : Inv ue)
    (haddr : ∀ k, ue.cipher = some k → ue.recorded k.cell = some addr) (g : Grant) (fuel : ℕ) :
    Meets False (pumpLoop radio now addr g fuel ue) (Pumped ue) := by
  induction fuel generalizing ue with
  | zero => exact meets_ok (Pumped.refl h)
  | succ fuel ih =>
    rw [pumpLoop]
    split
    · refine (pumpFrame_meets h haddr g).bind fun x hx => ?_
      obtain ⟨ue', more⟩ := x
      cases more with
      | false => exact meets_pure hx
      | true =>
        refine (ih hx.inv ?_).mono fun ue'' h'' => hx.trans h''
        intro k' hk'
        obtain ⟨k, hk, hcell⟩ := hx.cipher k' hk'
        rw [hx.recorded, hcell]
        exact haddr k hk
    · exact meets_ok (Pumped.refl h)

/-- **What is pumped goes to the cell of the key**, where that is what the address is. -/
theorem pumpUl_meets (h : Inv ue) (haims : pumps ue.st = true → Aims ue now) :
    Meets False (ue.pumpUl radio now) (Pumped ue) := by
  unfold pumpUl
  split
  · rename_i hpumps
    cases haddr : ue.ulAddr now with
    | none => exact meets_ok (Pumped.refl h)
    | some addr =>
      cases ue.grant with
      | none => exact meets_ok (Pumped.refl h)
      | some g => exact pumpLoop_meets h (fun k hk => haims hpumps k hk addr haddr) g _
  · exact meets_ok (Pumped.refl h)

/-- Where the serving cell has no address, what is heard lately is the cell of the key. -/
def Falls (ue : Ue prim L) (now : Now) : Prop :=
  ∀ k ∈ ue.cipher, ∀ addr ∈ ue.heardAddr now, ue.recorded k.cell = some addr

/-- A state in which frames are sent names the cell of the key, or none. -/
theorem aims_of_falls (h : Inv ue) (hpumps : pumps ue.st = true)
    (hfalls : ue.servingAddr = none → Falls ue now) :
    Aims ue now := by
  intro k hk addr haddr
  unfold ulAddr at haddr
  cases hserving : ue.servingAddr with
  | none =>
    rw [hserving, Option.none_or] at haddr
    exact hfalls hserving k hk addr haddr
  | some a =>
    rw [hserving, Option.some_or] at haddr
    cases haddr
    obtain ⟨cell, hcell, hrecorded⟩ := Option.bind_eq_some_iff.mp hserving
    have hkeyed : keyedCell ue.st = some cell := by
      unfold servingCell at hcell
      cases hst : ue.st <;> rw [hst] at hpumps hcell <;> first | exact hcell | cases hpumps
    rw [h.keyed k hk cell hkeyed]
    exact hrecorded

theorem pumpUl_of_falls (h : Inv ue)
    (hfalls : pumps ue.st = true → ue.servingAddr = none → Falls ue now) :
    Meets False (ue.pumpUl radio now) (Pumped ue) :=
  pumpUl_meets h fun hpumps => aims_of_falls h hpumps (hfalls hpumps)

/-! ## What keeps the invariant -/

/-- The invariant holds, and what was in the table of the serving cell still is. -/
def Keeps (ue ue' : Ue prim L) : Prop := Inv ue' ∧ (Ready ue → Ready ue')

/-- Nothing that matters here is changed. -/
structure Same (ue ue' : Ue prim L) : Prop where
  sends : ue'.sends = ue.sends
  st : ue'.st = ue.st
  cells : ue'.cells = ue.cells
  cipher : ue'.cipher = ue.cipher

namespace Same

theorem refl (ue : Ue prim L) : Same ue ue := ⟨rfl, rfl, rfl, rfl⟩

theorem trans {ue'' : Ue prim L} (h : Same ue ue') (h' : Same ue' ue'') : Same ue ue'' :=
  ⟨h'.sends.trans h.sends, h'.st.trans h.st, h'.cells.trans h.cells, h'.cipher.trans h.cipher⟩

theorem inv (hsame : Same ue ue') (h : Inv ue) : Inv ue' where
  addressed := hsame.sends ▸ h.addressed
  keyed := by
    rw [hsame.cipher, hsame.st]
    exact h.keyed

theorem recorded (hsame : Same ue ue') (cell : UInt32) : ue'.recorded cell = ue.recorded cell := by
  unfold Ue.recorded
  rw [hsame.cells]

theorem keeps (hsame : Same ue ue') (h : Inv ue) : Keeps ue ue' := by
  refine ⟨hsame.inv h, fun hready cell hcell => ?_⟩
  rw [hsame.recorded]
  exact hready cell (hsame.st ▸ hcell)

theorem servingAddr (hsame : Same ue ue') : ue'.servingAddr = ue.servingAddr := by
  unfold Ue.servingAddr servingCell Ue.recorded
  rw [hsame.st, hsame.cells]

theorem falls (hsame : Same ue ue') (h : Falls ue now) : Falls ue' now := by
  unfold Falls heardAddr Ue.recorded at *
  rw [hsame.cipher, hsame.cells]
  exact h

end Same

/-- The state names no cell for the key. -/
def Rests (ue : Ue prim L) : Prop := Inv ue ∧ keyedCell ue.st = none

theorem Rests.keeps (h : Rests ue') : Keeps ue ue' := ⟨h.1, fun _ => Ready.of_unkeyed h.2⟩

theorem rests (h : Inv ue) (hsends : ue'.sends = ue.sends) (hst : keyedCell ue'.st = none) :
    Rests ue' :=
  ⟨h.of_unkeyed hsends hst, hst⟩

theorem same_emit (ue : Ue prim L) (o : UeOut L) : Same ue (ue.emit o) := ⟨rfl, rfl, rfl, rfl⟩

theorem same_retune (ch : Byte) : Same ue (ue.retune ch) := by
  unfold retune
  split <;> exact ⟨rfl, rfl, rfl, rfl⟩

theorem same_attachMessage (cause : RachCause) : Same ue (attachMessage prim ue cause).1 := by
  cases cause <;> exact ⟨rfl, rfl, rfl, rfl⟩

theorem sendPlainOnGrant_meets (m : Plain) : Meets False (ue.sendPlainOnGrant m now) (Same ue) := by
  unfold sendPlainOnGrant
  split
  · exact meets_any.bind fun slot _ => meets_pure ⟨rfl, rfl, rfl, rfl⟩
  · exact meets_ok (Same.refl ue)

theorem search_meets (h : Inv ue) : Meets False (ue.search now) Rests :=
  meets_any.bind fun _ _ => meets_pure (rests h rfl rfl)

theorem rach_meets (h : Inv ue) (cell : UInt32) (tries : Byte) (cause : RachCause) :
    Meets False (ue.rach cell tries cause now) Rests :=
  meets_any.bind fun _ _ => meets_pure (rests h rfl rfl)

theorem camp_meets (h : Inv ue) (cell : UInt32) : Meets False (ue.camp cell now) Rests := by
  refine meets_any.bind fun c _ => ?_
  have hsame : Same ue (ue.retune c.sib.channel) := same_retune _
  dsimp only
  split
  · exact meets_pure (rests h hsame.sends rfl)
  · exact rach_meets (hsame.inv h) _ _ _

theorem reject_meets (h : Inv ue) (cell : UInt32) (cause : Cause) :
    Meets False (ue.reject cell cause now) Rests := by
  have hreset : Inv { ue.resetSession with lastCause := some cause } := h.of_cipher_none rfl rfl
  have hfresh :
    Inv { ue.resetSession with lastCause := some cause, auth := none, tmsi := 0, paged := false } :=
    h.of_cipher_none rfl rfl
  unfold reject
  dsimp only
  split
  · exact rach_meets hfresh _ _ _
  · split
    · exact meets_ok (rests hreset rfl rfl)
    · split
      · exact meets_ok (rests hreset rfl rfl)
      · exact meets_ok (rests hreset rfl rfl)

theorem released_meets (h : Inv ue) (cause : Cause) :
    Meets False (ue.released cause now) Rests := by
  unfold released
  dsimp only
  split
  · exact meets_ok (rests h rfl rfl)
  · split
    · exact meets_ok (rests h rfl rfl)
    · split
      · exact meets_ok (rests h rfl rfl)
      · split
        · exact search_meets (h.of_cipher_none rfl rfl)
        · exact search_meets (h.of_cipher_none rfl rfl)

/-- The key is that of the cell that the state names from here. -/
theorem secure_meets (h : Inv ue) (hcell : (ue.recorded cell).isSome) (epoch : UInt32)
    (mac rand : List Byte) (r : SimResponse) (resume : Bool) :
    Meets False (ue.secure radio cell epoch mac rand r resume now) (Keeps ue) := by
  unfold secure
  split
  · exact meets_ok (Rests.keeps (rests h rfl rfl))
  · have hinv : Inv { ue with
        cipher := some (.new prim r.ksEnc cell epoch), ctlQ :=
          ue.ctlQ ++ [Item.securityModeComplete],
        st := .secure cell (now.ms + 3000) resume } := by
      refine ⟨h.addressed, fun k hk c hc => ?_⟩
      cases hk
      cases hc
      rfl
    refine (pumpUl_of_falls hinv fun _ hnone => ?_).mono fun ue' hpumped =>
      ⟨hpumped.inv, fun _ => hpumped.ready ?_⟩
    · have hrecorded : ue.recorded cell = none := hnone
      rw [hrecorded] at hcell
      cases hcell
    · intro c hc
      cases hc
      exact hcell

/-- A plain message is taken from the serving cell only, which is in the table. -/
theorem onPlain_meets (h : Inv ue) (hserving : ue.servingAddr.isSome) (m : Plain) (sim : Sim) :
    Meets False (ue.onPlain radio m sim now) (Keeps ue) := by
  have hrecorded : ∀ cell, ue.servingCell = some cell → (ue.recorded cell).isSome := by
    intro cell hcell
    unfold servingAddr at hserving
    rw [hcell] at hserving
    exact hserving
  unfold onPlain
  split
  · rename_i nonce ueId grant cell n tries deadline cause hst
    split
    · have hgrant : Same ue { ue with ueId, grant := some grant, nextTxSlot := 0 } :=
        ⟨rfl, rfl, rfl, rfl⟩
      have hsame := hgrant.trans (same_attachMessage cause)
      refine Meets.bind (sendPlainOnGrant_meets _) fun ue' hsame' => ?_
      exact meets_pure (Rests.keeps (rests h (hsame.trans hsame').sends rfl))
    · exact meets_ok (Same.keeps (Same.refl ue) h)
  · split
    · refine Meets.bind (sendPlainOnGrant_meets _) fun ue' hsame => ?_
      exact meets_pure (Rests.keeps (rests h hsame.sends rfl))
    · exact meets_ok (Rests.keeps (rests h rfl rfl))
  · rename_i cell deadline hst
    split
    · exact secure_meets h (hrecorded cell (by unfold servingCell; rw [hst])) _ _ _ _ _
    · exact meets_ok (Same.keeps (Same.refl ue) h)
  · rename_i cell deadline hst
    split
    · exact secure_meets h (hrecorded cell (by unfold servingCell; rw [hst])) _ _ _ _ _
    · exact meets_ok (Same.keeps (Same.refl ue) h)
  · exact (reject_meets h _ _).mono fun _ => Rests.keeps
  · exact (reject_meets h _ _).mono fun _ => Rests.keeps
  · exact (reject_meets h _ _).mono fun _ => Rests.keeps
  · exact (reject_meets h _ _).mono fun _ => Rests.keeps
  · exact meets_ok (Same.keeps (Same.refl ue) h)

/-! ### Handover -/

theorem sendHoConfirm_meets (h : Inv ue) : Meets False (ue.sendHoConfirm now) (Keeps ue) := by
  unfold sendHoConfirm
  split
  · rename_i source target deadline tag tries hst
    split
    · exact meets_ok (Same.keeps (Same.refl ue) h)
    · split
      · rename_i k g addr hk hg haddr
        have hcell : k.cell = target := h.keyed k hk target (by rw [hst]; rfl)
        refine meets_any.bind fun slot _ => meets_pure ⟨?_, fun hready cell hc => ?_⟩
        · refine h.send (x := ⟨addr, ⟨k, ue.cfg.address, addr,
            [.handoverConfirm, .bufferStatus (UInt32.ofNat (ue.ulQ.map List.length).sum)]⟩,
              ue.recorded k.cell⟩) ?_ rfl ?_
          · rw [hcell]
            exact haddr
          · intro k' hk' cell hc
            cases hk'
            cases hc
            exact hcell
        · cases hc
          exact hready target (by rw [hst]; rfl)
      · exact meets_ok (Same.keeps (Same.refl ue) h)
  · exact meets_ok (Same.keeps (Same.refl ue) h)

/-- A cell that is not in the table is not changed there. -/
theorem modify_of_not_recorded {cells : OrderedMap UInt32 (CellSeen L)}
    (hnone : cells[cell]? = none) (f : CellSeen L → CellSeen L) : cells.modify cell f = cells := by
  apply Std.ExtTreeMap.ext_getElem?
  intro a
  rw [OrderedMap.getElem?_modify']
  split
  · rename_i heq
    rw [← heq, hnone]
    rfl
  · rfl

theorem recorded_arrive (target cell : UInt32) :
    (ue.arrive target now).recorded cell = ue.recorded cell := by
  unfold recorded arrive
  dsimp only
  rw [OrderedMap.getElem?_modify']
  split
  · rw [Option.map_map]
    rfl
  · rfl

theorem arrive_inv (h : Inv ue) {target : UInt32} (hst : keyedCell ue.st = some target) :
    Inv (ue.arrive target now) := by
  refine ⟨h.addressed, fun k hk cell hc => ?_⟩
  cases hc
  exact h.keyed k hk target hst

theorem arrive_falls {target : UInt32} (hgone : ue.recorded target = none) (h : Falls ue now) :
    Falls (ue.arrive target now) now := by
  have hcells : (ue.arrive target now).cells = ue.cells :=
    modify_of_not_recorded (Option.map_eq_none_iff.mp hgone) _
  intro k hk addr haddr
  unfold heardAddr at haddr
  rw [hcells] at haddr
  rw [recorded_arrive]
  exact h k hk addr haddr

theorem handoverDone_meets (h : Inv ue) {target : UInt32} (hst : keyedCell ue.st = some target)
    (hfalls : ue.recorded target = none → Falls ue now) :
    Meets False (ue.handoverDone radio source target now) (Keeps ue) := by
  unfold handoverDone
  dsimp only
  generalize UeEvent.handover source target _ = e
  have hsame : Same (ue.arrive target now) ((ue.arrive target now).ev e) := same_emit _ _
  refine (pumpUl_of_falls (hsame.inv (arrive_inv h hst)) fun _ hnone => ?_).mono fun ue' hpumped =>
    ⟨hpumped.inv, fun hready => hpumped.ready fun cell hc => ?_⟩
  · have hgone : ue.recorded target = none := by
      rw [← recorded_arrive]
      exact hsame.servingAddr.symm.trans hnone
    exact hsame.falls (arrive_falls hgone (hfalls hgone))
  · rw [hsame.recorded, recorded_arrive]
    cases hc
    exact hready target hst

/-! ### Items -/

theorem same_data (seq : UInt32) (idx count : Byte) (bytes : List Byte) :
    Same ue (ue.data seq idx count bytes now) := by
  unfold data
  split
  dsimp only
  split
  · split
    · exact ⟨rfl, rfl, rfl, rfl⟩
    · exact ⟨rfl, rfl, rfl, rfl⟩
  · exact ⟨rfl, rfl, rfl, rfl⟩

theorem same_renew (session : UInt32) (resume : Bool) : Same ue (ue.renew session resume) := by
  unfold renew
  split <;> exact ⟨rfl, rfl, rfl, rfl⟩

theorem connect_inv (h : Inv ue) (hst : keyedCell ue.st = some cell) (cfg : IpConfig)
    (tmsi : UInt32) :
    Inv (ue.connect cfg tmsi cell now) := by
  refine ⟨h.addressed, fun k hk c hc => ?_⟩
  cases hc
  exact h.keyed k hk cell hst

theorem attachAccept_meets (h : Inv ue) (hst : keyedCell ue.st = some cell)
    (hcell : (ue.recorded cell).isSome) (cfg : IpConfig) (tmsi session : UInt32) (resume : Bool) :
    Meets False (ue.attachAccept radio cfg tmsi session cell resume now) (Keeps ue) := by
  unfold attachAccept
  dsimp only
  generalize (if resume ∧ ue.ip = some cfg then UeEvent.resumed cell
    else UeEvent.attached cell cfg) = e
  have hrenew : Same ue (ue.renew session resume) := same_renew _ _
  have hconnect : Inv ((ue.renew session resume).connect cfg tmsi cell now) :=
    connect_inv (hrenew.inv h) (by rw [hrenew.st, hst]) cfg tmsi
  have hsame := same_emit ((ue.renew session resume).connect cfg tmsi cell now) (.event e)
  refine (pumpUl_of_falls (hsame.inv hconnect) fun _ hnone => ?_).mono fun ue' hpumped =>
    ⟨hpumped.inv, fun _ => hpumped.ready fun c hc => ?_⟩
  · have hrecorded : (ue.renew session resume).recorded cell = none :=
      hsame.servingAddr.symm.trans hnone
    rw [hrenew.recorded] at hrecorded
    rw [hrecorded] at hcell
    cases hcell
  · cases hc
    have hrecorded : (ue.renew session resume).recorded cell = ue.recorded cell :=
      hrenew.recorded cell
    exact hrecorded.symm ▸ hcell

/-- The target of a handover is in the table from here. -/
theorem recorded_of_learnTarget {channel : Byte}
    (h : ue.learnTarget radio source cell addr channel now = some ue') :
    ue'.recorded cell = some addr ∧ ue'.sends = ue.sends ∧ ue'.cipher = ue.cipher := by
  unfold learnTarget at h
  split at h
  · rename_i hknown
    cases h
    exact ⟨hknown, rfl, rfl⟩
  · obtain ⟨c, -, rfl⟩ := Option.map_eq_some_iff.mp h
    refine ⟨?_, rfl, rfl⟩
    unfold recorded
    dsimp only
    rw [OrderedMap.getElem?_insert', if_pos rfl]
    rfl

/-- A handover starts with the target's key. -/
theorem startHandover_meets (hsent : ∀ x ∈ ue.sends, x.recorded = some x.dst)
    (hk : ∀ k, ue.cipher = some k → k.cell = cell) (hcell : ue.recorded cell = some addr)
    (source : UInt32) (channel : Byte) (ueId : UInt16) (grant : Grant) :
    Meets False (ue.startHandover source cell channel ueId grant now) fun ue' => Inv ue' ∧
      Ready ue' := by
  have hsame : Same ue (ue.retune channel) := same_retune _
  have hinv : Inv { ue.retune channel with
      gap := none, ueId, grant := some grant, nextTxSlot := 0, inflight := ∅,
      st := .handingOver source cell (now.ms + 1500) 0 0 } := by
    refine ⟨fun x hx => hsent x (hsame.sends ▸ hx), fun k hk' c hc => ?_⟩
    cases hc
    exact hk k (hsame.cipher ▸ hk')
  unfold startHandover
  dsimp only
  refine (sendHoConfirm_meets hinv).mono fun ue' hkeeps => ⟨hkeeps.1, hkeeps.2 fun c hc => ?_⟩
  cases hc
  have hrecorded : (ue.retune channel).recorded cell = some addr :=
    (hsame.recorded cell).trans hcell
  exact Option.isSome_iff_exists.mpr ⟨addr, hrecorded⟩

/-- The target is learned from the serving cell, if that is in the table. -/
theorem learnTarget_isSome (h : (ue.recorded source).isSome) (cell addr : UInt32) (channel : Byte) :
    (ue.learnTarget radio source cell addr channel now).isSome := by
  unfold learnTarget
  split
  · rfl
  · rw [Option.isSome_map]
    unfold recorded at h
    rw [Option.isSome_map] at h
    exact h

theorem onHandoverCommand_meets (h : Inv ue) (hsource : (ue.recorded source).isSome)
    (r : SimResponse) (cell addr : UInt32) (channel : Byte) (epoch : UInt32) (ueId : UInt16)
    (grant : Grant) :
    Meets False
      (match (ue.switchKey r cell epoch).learnTarget radio source cell addr channel now with
      | some ue => ue.startHandover source cell channel ueId grant now
      | none => .ok (ue.switchKey r cell epoch)) fun ue' => Inv ue' ∧ Ready ue' := by
  have hswitched : ((ue.switchKey r cell epoch).recorded source).isSome := hsource
  cases hlearn : (ue.switchKey r cell epoch).learnTarget radio source cell addr channel now with
  | none =>
    have hsome :
      ((ue.switchKey r cell epoch).learnTarget radio source cell addr channel now).isSome :=
      learnTarget_isSome hswitched cell addr channel
    rw [hlearn] at hsome
    cases hsome
  | some ue' =>
    obtain ⟨hrecorded, hsends, hcipher⟩ := recorded_of_learnTarget hlearn
    refine startHandover_meets (fun x hx => h.addressed x (hsends ▸ hx))
      (fun k hk => ?_) hrecorded _ _ _ _
    rw [hcipher] at hk
    cases hk
    rfl

/-- **An item**, while the serving cell is in the table.  That is what a handover command needs,
whose key is in place before the table is looked at. -/
theorem onItem_meets (h : Inv ue ∧ Ready ue) (fromPrev : Bool) (i : Item) :
    Meets False (ue.onItem radio fromPrev now i) fun ue' => Inv ue' ∧ Ready ue' := by
  have hkeeps : ∀ {ue' : Ue prim L}, Keeps ue ue' → Inv ue' ∧ Ready ue' :=
    fun hk => ⟨hk.1, hk.2 h.2⟩
  have hsame : ∀ {ue' : Ue prim L}, Same ue ue' → Inv ue' ∧ Ready ue' :=
    fun hs => hkeeps (hs.keeps h.1)
  cases i with
  | attachAccept ip prefixLen gateway dns mtu tmsi session =>
    unfold onItem
    dsimp only
    split
    · rename_i cell deadline resume hst
      have hcell : keyedCell ue.st = some cell := by rw [hst]; rfl
      exact (attachAccept_meets h.1 hcell (h.2 cell hcell) _ _ _ _).mono fun _ hk => hkeeps hk
    · exact meets_ok h
  | grant g =>
    unfold onItem
    dsimp only
    split
    · exact meets_ok h
    · exact meets_ok (hsame ⟨rfl, rfl, rfl, rfl⟩)
  | ims info =>
    unfold onItem
    dsimp only
    split
    · exact meets_ok (hsame ⟨rfl, rfl, rfl, rfl⟩)
    · exact meets_ok h
  | bearerSetup b => exact meets_ok (hsame ⟨rfl, rfl, rfl, rfl⟩)
  | bearerRelease id =>
    unfold onItem
    dsimp only
    split
    · exact meets_ok (hsame ⟨rfl, rfl, rfl, rfl⟩)
    · exact meets_ok h
  | data seq idx count bytes => exact meets_ok (hsame (same_data seq idx count bytes))
  | release cause =>
    unfold onItem
    dsimp only
    split
    · exact meets_ok h
    · exact (released_meets h.1 cause).mono fun _ hr => hkeeps hr.keeps
  | handoverCommand cellId addr profile channel epoch ueId grant =>
    unfold onItem
    dsimp only
    split
    · rename_i source rand r hst hauth
      split
      · exact meets_ok h
      · exact onHandoverCommand_meets h.1 (h.2 source (by rw [hst]; rfl)) r cellId addr channel
          epoch ueId grant
    · exact meets_ok h
  | detachAccept =>
    unfold onItem
    dsimp only
    split
    · exact meets_ok (hkeeps (Rests.keeps (rests h.1 rfl rfl)))
    · exact meets_ok h
  | _ => exact meets_ok h

theorem onItems_meets (h : Inv ue) (hready : Ready ue) (items : List Item) (fromPrev : Bool) :
    Meets False (ue.onItems radio items fromPrev now) Inv := by
  have harrived : Meets False (ue.arrived radio fromPrev now) fun ue' => Inv ue' ∧ Ready ue' := by
    unfold arrived
    split
    · rename_i source target deadline tag tries hst
      have htarget : keyedCell ue.st = some target := by rw [hst]; rfl
      refine (handoverDone_meets h htarget fun hnone => ?_).mono fun ue' hk => ⟨hk.1, hk.2 hready⟩
      have hsome := hready target htarget
      rw [hnone] at hsome
      cases hsome
    · exact meets_ok ⟨h, hready⟩
  refine harrived.bind fun ue' hfine => ?_
  have hall : Meets False (items.foldlM (onItem radio fromPrev now) ue') fun ue' => Inv ue' ∧
    Ready ue' :=
    meets_foldlM hfine fun ue' i _ hue => onItem_meets hue fromPrev i
  exact hall.mono fun _ hue => hue.1

/-! ## Received frames -/

/-- Opening a frame leaves the key with its cell. -/
theorem openFrame_keeps (h : Inv ue) (rx : RxFrame L) : Keeps ue (ue.openFrame rx).1 := by
  unfold openFrame
  split
  · exact ⟨⟨h.addressed, h.keyed⟩, fun hready => hready⟩
  · rename_i k hprev hk
    refine ⟨⟨h.addressed, fun k' hk' cell hc => ?_⟩, fun hready => hready⟩
    cases hk'
    exact h.keyed k hk cell hc
  · exact ⟨h, fun hready => hready⟩

theorem onProtected_meets (h : Inv ue) (hready : Ready ue) (rx : RxFrame L) :
    Meets False (ue.onProtected radio rx now) Inv := by
  have hopened := openFrame_keeps h rx
  unfold onProtected
  split
  · rename_i ue' heq
    rw [heq] at hopened
    exact meets_ok hopened.1
  · rename_i ue' plain fromPrev heq
    rw [heq] at hopened
    split
    · exact onItems_meets hopened.1 (hopened.2 hready) _ _
    · exact meets_ok hopened.1

theorem onBroadcast_meets (h : Inv ue) (rx : RxFrame L) :
    Meets False (ue.onBroadcast radio rx now) Inv := by
  unfold onBroadcast
  split
  · exact meets_ok ⟨h.addressed, h.keyed⟩
  · split
    · split
      · have hpaged : Inv { ue with paged := true } := ⟨h.addressed, h.keyed⟩
        exact (camp_meets hpaged _).mono fun _ hr => hr.1
      · exact meets_ok h
    · exact meets_ok h
  · exact meets_ok h

theorem onRx_meets (h : Inv ue) (rx : RxFrame L)
    (hready : rx.payload.head? = some «protected» → Ready ue) (sim : Sim) :
    Meets False (ue.onRx radio rx sim now) Inv := by
  unfold onRx
  split
  · exact meets_ok h
  · rename_i t payload hpayload
    split
    · exact onBroadcast_meets h rx
    · split
      · exact meets_ok h
      · split
        · rename_i ht
          exact onProtected_meets h (hready (by rw [hpayload, ← ht]; rfl)) rx
        · split
          · exact meets_ok h
          · rename_i hsrc
            rw [not_not] at hsrc
            split
            · exact (onPlain_meets h (Option.isSome_iff_exists.mpr ⟨_, hsrc.symm⟩) _ _).mono
                fun _ hk => hk.1
            · exact meets_ok h

/-- A frame is sent again to where its cell is still recorded. -/
theorem resend_inv (h : Inv ue) {x : Flight prim} (hx : ue.recorded x.frame.cell = some x.dst) :
    Inv (ue.resend x) := by
  have hsends : (ue.resend x).sends = ue.sends ++ [⟨x.dst, x.frame, ue.recorded x.frame.cell⟩] := by
    simp only [resend, txSealed]
  have hcipher : (ue.resend x).cipher = ue.cipher := by simp only [resend, txSealed, tx, emit]
  have hst : (ue.resend x).st = ue.st := by simp only [resend, txSealed, tx, emit]
  refine h.send hx hsends ?_
  rw [hcipher, hst]
  exact h.keyed

/-- Does this status end a handover? -/
def ends (ue : Ue prim L) (s : TxStatus) : Bool :=
  match ue.st with
  | .handingOver _ _ _ tag _ => s.tag = tag && s.result = .acked
  | _ => false

theorem handoverStatus_meets (h : Inv ue) {s : TxStatus}
    (hfalls : ue.ends s = true → ue.servingAddr = none → Falls ue now) :
    Meets False (ue.handoverStatus radio s now) Inv := by
  unfold handoverStatus
  split
  · rename_i source target deadline tag tries hst
    split
    · rename_i htag
      split
      · rename_i hacked
        refine (handoverDone_meets h (by rw [hst]; rfl) fun hnone => hfalls ?_ ?_).mono fun _ hk =>
          hk.1
        · unfold ends
          rw [hst]
          exact Bool.and_eq_true_iff.mpr ⟨decide_eq_true htag, decide_eq_true hacked⟩
        · unfold servingAddr servingCell
          rw [hst]
          exact hnone
      · exact (sendHoConfirm_meets h).mono fun _ hk => hk.1
      · exact meets_ok h
    · exact meets_ok h
  · exact meets_ok h

theorem onStatus_meets (h : Inv ue) {s : TxStatus}
    (hfalls : ue.ends s = true → ue.servingAddr = none → Falls ue now)
    (hresent : refused s = true → ∀ x ∈ ue.inflight[s.tag]?,
    ue.recorded x.frame.cell = some x.dst) :
    Meets False (ue.onStatus radio s now) Inv := by
  unfold onStatus
  split
  · rename_i x hx
    have hinv : Inv { ue with inflight := ue.inflight.erase s.tag } := ⟨h.addressed, h.keyed⟩
    dsimp only
    split
    · rename_i hrefused
      exact meets_ok (resend_inv hinv (hresent hrefused x hx))
    · exact handoverStatus_meets hinv hfalls
  · split
    · have hinv : Inv { ue with plainInflight := ue.plainInflight.erase s.tag } :=
        ⟨h.addressed, h.keyed⟩
      dsimp only
      split
      · exact meets_ok ⟨h.addressed, h.keyed⟩
      · exact handoverStatus_meets hinv hfalls
    · exact handoverStatus_meets h hfalls

/-! ## Time -/

theorem same_gaps (cell : UInt32) : Same ue (ue.gaps radio cell now) := by
  unfold gaps
  dsimp only
  split
  · split
    · have hsame : ∀ ch, Same ue (ue.retune ch) := fun ch => same_retune ch
      exact ⟨(hsame _).sends, (hsame _).st, (hsame _).cells, (hsame _).cipher⟩
    · split <;> exact ⟨rfl, rfl, rfl, rfl⟩
  · split
    · exact Same.refl ue
    · split
      · exact Same.refl ue
      · split <;> exact ⟨rfl, rfl, rfl, rfl⟩

theorem same_reports (cell : UInt32) : Same ue (ue.reports radio cell now) := by
  unfold reports
  generalize (if ue.a3 radio cell now then 300 else ue.cfg.reportMs) = due
  split
  · split <;> exact ⟨rfl, rfl, rfl, rfl⟩
  · exact Same.refl ue

theorem same_keepalive : Same ue (ue.keepalive now) := by
  unfold keepalive
  split <;> exact ⟨rfl, rfl, rfl, rfl⟩

theorem tickConnected_meets (h : Inv ue) (hfalls : ue.servingAddr = none → Falls ue now)
    (cell : UInt32) :
    Meets False (ue.tickConnected radio cell now) Inv := by
  unfold tickConnected
  split
  · refine (search_meets ?_).mono fun _ hr => hr.1
    exact h.of_cipher_none rfl rfl
  · have hsame : Same ue (((ue.gaps radio cell now).reports radio cell now).keepalive now) :=
      ((same_gaps cell).trans (same_reports cell)).trans same_keepalive
    refine (pumpUl_of_falls (hsame.inv h) fun _ hnone => ?_).mono fun _ hp => hp.inv
    exact hsame.falls (hfalls (hsame.servingAddr.symm.trans hnone))

theorem tickSearch_meets (h : Inv ue) (idx til sweepFrom swept : ℕ) :
    Meets False (ue.tickSearch radio idx til sweepFrom swept now) Inv := by
  unfold tickSearch
  split
  · exact meets_ok h
  · split
    · exact (camp_meets h _).mono fun _ hr => hr.1
    · refine meets_any.bind fun ch _ => ?_
      dsimp only
      split
      · exact meets_pure (h.of_unkeyed rfl rfl)
      · exact meets_pure (h.of_unkeyed rfl rfl)

theorem tickAttach_meets (h : Inv ue)
    (hfalls : pumps ue.st = true → ue.servingAddr = none → Falls ue now) (deadline : ℕ) :
    Meets False (ue.tickAttach radio deadline now) Inv := by
  unfold tickAttach
  split
  · exact (search_meets ((same_emit ue _).inv h)).mono fun _ hr => hr.1
  · exact (pumpUl_of_falls h hfalls).mono fun _ hp => hp.inv

theorem expire_inv (h : Inv ue) : Inv (ue.expire now) := ⟨h.addressed, h.keyed⟩

theorem tick_meets (h : Inv ue)
    (hfalls : pumps ue.st = true → (ue.expire now).servingAddr = none → Falls (ue.expire now) now) :
    Meets False (ue.tick radio now) Inv := by
  have hinv : Inv (ue.expire now) := expire_inv h
  unfold tick
  dsimp only
  split
  · exact meets_ok hinv
  · exact meets_ok hinv
  · exact tickSearch_meets hinv _ _ _ _
  · split
    · exact (search_meets hinv).mono fun _ hr => hr.1
    · exact meets_ok hinv
  · split
    · split
      · refine (search_meets ?_).mono fun _ hr => hr.1
        exact ⟨h.addressed, h.keyed⟩
      · exact (rach_meets hinv _ _ _).mono fun _ hr => hr.1
    · exact meets_ok hinv
  · exact tickAttach_meets hinv hfalls _
  · exact tickAttach_meets hinv hfalls _
  · exact tickAttach_meets hinv hfalls _
  · rename_i cell hst
    have hpumps : pumps ue.st = true := by
      have hst' : ue.st = .connected cell := hst
      rw [hst']
      rfl
    exact tickConnected_meets hinv (hfalls hpumps) _
  · split
    · refine (search_meets ?_).mono fun _ hr => hr.1
      exact hinv.of_cipher_none rfl rfl
    · exact meets_ok hinv
  · split
    · exact meets_ok (hinv.of_unkeyed rfl rfl)
    · split
      · refine (rach_meets ?_ _ _ _).mono fun _ hr => hr.1
        exact ⟨h.addressed, h.keyed⟩
      · exact meets_ok hinv
  · split
    · exact meets_ok (hinv.of_unkeyed rfl rfl)
    · exact (pumpUl_of_falls hinv hfalls).mono fun _ hp => hp.inv

/-! ## Runs -/

def isConnected : St → Bool
  | .connected _ => true
  | _ => false

/-- What keeps a call away from the address of another cell.  Where frames may be sent and the
serving cell is not in the table, and where a connected phone detaches, the first cell that was
heard lately is the one of the key; no protected frame comes while the serving cell is not in the
table; and a frame that is refused is still for the address its cell has. -/
def Heeds (ue : Ue prim L) (now : Now) : UeCall L → Prop
  | .detach => isConnected ue.st = true → Falls ue now
  | .sendIp _ => pumps ue.st = true → ue.servingAddr = none → Falls ue now
  | .goIdle => pumps ue.st = true → ue.servingAddr = none → Falls ue now
  | .tick => pumps ue.st = true → (ue.expire now).servingAddr = none → Falls (ue.expire now) now
  | .onPhy (.status s) _ =>
    (ue.ends s = true → ue.servingAddr = none → Falls ue now) ∧
      (refused s = true → ∀ x ∈ ue.inflight[s.tag]?, ue.recorded x.frame.cell = some x.dst)
  | .onPhy (.rx rx) _ => rx.payload.head? = some «protected» → Ready ue
  | _ => True

theorem enqueue_meets (pkt : List Byte) : Meets False (ue.enqueue pkt) (Same ue) := by
  unfold enqueue
  dsimp only
  split
  · generalize (if ue.ulQ.length ≥ ulQueue then ue.ulQ.dropLast else ue.ulQ) = q
    split
    · exact not_false
    · exact meets_ok ⟨rfl, rfl, rfl, rfl⟩
  · exact meets_ok ⟨rfl, rfl, rfl, rfl⟩

theorem sendIp_meets (h : Inv ue) (pkt : List Byte)
    (hfalls : pumps ue.st = true → ue.servingAddr = none → Falls ue now) :
    Meets False (ue.sendIp radio pkt now) Inv := by
  unfold sendIp
  split
  · rename_i cell hst
    refine (enqueue_meets pkt).bind fun ue' hsame => ?_
    refine (pumpUl_of_falls (hsame.inv h) fun _ hnone => hsame.falls (hfalls ?_ ?_)).mono
      fun _ hp => hp.inv
    · rw [hst]
      rfl
    · exact hsame.servingAddr.symm.trans hnone
  · exact (enqueue_meets pkt).mono fun _ hsame => hsame.inv h
  · have hpaged : Inv { ue with paged := true } := ⟨h.addressed, h.keyed⟩
    exact (enqueue_meets pkt).mono fun _ hsame => hsame.inv hpaged
  · exact meets_ok h

theorem goIdle_meets (h : Inv ue)
    (hfalls : pumps ue.st = true → ue.servingAddr = none → Falls ue now) :
    Meets False (ue.goIdle radio now) Inv := by
  unfold goIdle
  split
  · split
    · exact meets_ok h
    · have hinv : Inv { ue with
          ctlQ := if Item.idleRequest ∈ ue.ctlQ then ue.ctlQ else ue.ctlQ ++ [Item.idleRequest] } :=
        ⟨h.addressed, h.keyed⟩
      exact (pumpUl_of_falls hinv hfalls).mono fun _ hp => hp.inv
  · exact meets_ok h

/-- **A call keeps the invariant.** -/
theorem call_meets (h : Inv ue) {c : UeCall L} (hheeds : Heeds ue now c) :
    Meets False (ue.call radio now c) Inv := by
  cases c with
  | start sim =>
    unfold call start
    dsimp only
    split
    · refine (search_meets ?_).mono fun _ hr => hr.1
      exact ⟨h.addressed, h.keyed⟩
    · exact meets_ok (h.of_unkeyed rfl rfl)
  | detach =>
    unfold call detach
    dsimp only
    split
    · rename_i cell hst
      have hfalls := hheeds (by rw [hst]; rfl)
      have hinv : Inv { ue with
          ctlQ := [Item.detach .userDetach], ulQ := [], ulSegs := [], st :=
            .detaching (now.ms + 1000) } :=
        h.of_unkeyed rfl rfl
      exact (pumpUl_of_falls hinv fun _ _ => hfalls).mono fun _ hp => hp.inv
    · exact meets_ok (h.of_unkeyed rfl rfl)
  | sendIp pkt => exact sendIp_meets h pkt hheeds
  | goIdle => exact goIdle_meets h hheeds
  | onPhy e sim =>
    cases e with
    | rx rx => exact onRx_meets h rx hheeds sim
    | status s => exact onStatus_meets h hheeds.1 hheeds.2
  | tick => exact tick_meets h hheeds
  | takeOut => exact meets_ok ⟨h.addressed, h.keyed⟩
  | setTxLeadUs us => exact meets_ok ⟨h.addressed, h.keyed⟩

/-- Calls one after another. -/
def run (radio : Radio L) (ue : Ue prim L) (calls : List (Now × UeCall L)) : Exec (Ue prim L) :=
  calls.foldlM (fun ue x => ue.call radio x.1 x.2) ue

/-- Every call of a run heeds what it has to. -/
def Heeded (radio : Radio L) : Ue prim L → List (Now × UeCall L) → Prop
  | _, [] => True
  | ue, (now, c) :: calls =>
    Heeds ue now c ∧
      match ue.call radio now c with
      | .ok ue => Heeded radio ue calls
      | .error _ => True

theorem run_meets (h : Inv ue) {calls : List (Now × UeCall L)} (hheeded : Heeded radio ue calls) :
    Meets False (ue.run radio calls) Inv := by
  induction calls generalizing ue with
  | nil => exact meets_ok h
  | cons x calls ih =>
    obtain ⟨now, c⟩ := x
    obtain ⟨hheeds, hrest⟩ := hheeded
    have hcall : Meets False (ue.call radio now c) Inv := call_meets h hheeds
    unfold run
    rw [List.foldlM_cons]
    cases hue : ue.call radio now c with
    | error e => cases e <;> first | trivial | exact not_false
    | ok ue' =>
      rw [hue] at hcall hrest
      exact ih hcall hrest

theorem new_inv (cfg : UeConfig L) : Inv (Ue.new prim cfg) where
  addressed := fun _ hx => absurd hx List.not_mem_nil
  keyed := fun _ hk => absurd hk.symm (Option.some_ne_none _)

/-- **A protected frame goes to the cell that can open it.**  In every run from power on whose
calls heed what is above, every protected frame that is sent, and every one that is sent again,
goes to the radio address that is recorded then for the cell whose key sealed it. -/
theorem frames_reach_their_cell (cfg : UeConfig L) {calls : List (Now × UeCall L)}
    (hheeded : Heeded radio (Ue.new prim cfg) calls)
    (hrun : (Ue.new prim cfg).run radio calls = .ok ue) :
    ∀ x ∈ ue.sends, x.recorded = some x.dst :=
  ((run_meets (new_inv cfg) hheeded).ok hrun).addressed

/-! ### Fixed runs -/

instance : Decidable (Falls ue now) :=
  show Decidable (∀ k ∈ ue.cipher, ∀ addr ∈ ue.heardAddr now, ue.recorded k.cell = some addr) from
    @Option.decidableForallMem _ _ (fun _ => Option.decidableForallMem _) ue.cipher

instance : Decidable (Ready ue) :=
  show Decidable (∀ cell ∈ keyedCell ue.st, (ue.recorded cell).isSome) from
    Option.decidableForallMem _

instance decidableHeeds : ∀ c : UeCall L, Decidable (Heeds ue now c)
  | .start _ => isTrue trivial
  | .detach => inferInstanceAs (Decidable (isConnected ue.st = true → Falls ue now))
  | .sendIp _ => inferInstanceAs
    (Decidable (pumps ue.st = true → ue.servingAddr = none → Falls ue now))
  | .goIdle => inferInstanceAs
    (Decidable (pumps ue.st = true → ue.servingAddr = none → Falls ue now))
  | .tick => inferInstanceAs (Decidable
      (pumps ue.st = true → (ue.expire now).servingAddr = none → Falls (ue.expire now) now))
  | .onPhy (.status s) _ => inferInstanceAs
    (Decidable ((ue.ends s = true → ue.servingAddr = none → Falls ue now) ∧
      (refused s = true → ∀ x ∈ ue.inflight[s.tag]?, ue.recorded x.frame.cell = some x.dst)))
  | .onPhy (.rx rx) _ => inferInstanceAs
    (Decidable (rx.payload.head? = some «protected» → Ready ue))
  | .takeOut => isTrue trivial
  | .setTxLeadUs _ => isTrue trivial

instance decidableHeeded (radio : Radio L) : ∀ (ue : Ue prim L) (calls : List (Now × UeCall L)),
    Decidable (Heeded radio ue calls)
  | _, [] => isTrue trivial
  | ue, (now, c) :: calls =>
    match h : ue.call radio now c with
    | .ok ue' =>
      have := decidableHeeded radio ue' calls
      decidable_of_iff (Heeds ue now c ∧ Heeded radio ue' calls) (by rw [Heeded, h])
    | .error _ => decidable_of_iff (Heeds ue now c) (by rw [Heeded, h, and_true])

/-- A radio whose levels are whole numbers, and where every frame has room. -/
def plainRadio : Radio ℤ where
  bytesIn _ _ _ _ := 1400
  airtimeUs _ _ _ _ := 1000
  mix _ new := new
  cmp := compare
  atLeast a b := b ≤ a
  above a b offset := b + offset < a
  x10 a := Int16.ofInt (a * 10)
  silent := -200
  zero := 0

def phoneConfig : UeConfig ℤ where
  profile := .lte
  address := 7
  channels := []
  powerDbm := none
  dwellMs := 250
  reportMs := 1000
  a3OffsetDb := 3
  gapBelowDbm := -75
  gapEveryMs := 2000
  gapMs := 160
  keepaliveMs := 1000
  rlfMs := 1500
  minRssiDbm := -115
  txLeadUs := 0

def phone : Ue .plain ℤ := .new .plain phoneConfig

def simAnswer : SimResponse := ⟨List.replicate 16 1, List.replicate 32 2⟩

def simCard : Sim := ⟨some ([], []), fun _ => some simAnswer⟩

def sibOf (cell : UInt32) : SysInfo where
  version := airVersion
  carrier := []
  cellId := cell
  area := 0
  flags := 1
  profile := 1
  channel := 1
  txPowerDbm := 0
  ulMask := 0
  rachSub := 1
  neighbours := []

/-- The beacon of a cell, whose radio address is a hundred more than its number. -/
def beacon (cell : UInt32) (rssi : ℤ) : UeCall ℤ :=
  .onPhy (.rx ⟨4, cell + 100, broadcast, rssi, 0, (Plain.sysInfo (sibOf cell)).encode⟩) simCard

def fromCell (payload : List Byte) : UeCall ℤ := .onPhy (.rx ⟨0, 102, 7, -60, 0, payload⟩) simCard

def wholeGrant : Grant := ⟨0, 1000000, 1, 0, 1, 0, 1⟩

/-- The cipher of the cell, at its side. -/
def cellCipher : AirCipher :=
  .new (Primitives.plain.cipher (Primitives.plain.asKey simAnswer.ksEnc 2 1)) 1 false

def attachItems : List Item := [.attachAccept ⟨10, 0, 0, 2⟩ 24 ⟨10, 0, 0, 1⟩ ⟨10, 0, 0, 1⟩ 1400 5 9]

/-- The phone attaches at cell 2, which is the strongest. -/
def attachCalls : List (Now × UeCall ℤ) :=
  [(⟨0, 0⟩, .start simCard), (⟨100, 100⟩, beacon 1 (-90)), (⟨110, 110⟩, beacon 2 (-60)),
    (⟨250, 250⟩, .tick),
    (⟨300, 300⟩, fromCell (Plain.rachResponse phone.rand.rng.toUInt32 3 wholeGrant).encode),
    (⟨310, 310⟩, fromCell (Plain.authChallenge (List.replicate 16 0)).encode),
    (⟨320, 320⟩, fromCell (Plain.securityModeCommand 1
      (Primitives.plain.smcMac simAnswer.ksInt (List.replicate 16 0) 2 1 7)).encode),
    (⟨330, 330⟩, fromCell (cellCipher.seal 102 7 (encodeItems attachItems)).2)]

/-- The frames that a run has sent. -/
def sentBy (calls : List (Now × UeCall ℤ)) : List (UInt32 × Option UInt32) :=
  match phone.run plainRadio calls with
  | .ok ue => ue.sends.map fun x => (x.dst, x.recorded)
  | .error _ => []

theorem run_of_sentBy {calls : List (Now × UeCall ℤ)} {l : List (UInt32 × Option UInt32)}
    (h : sentBy calls = l) (hne : l ≠ []) :
    ∃ ue, phone.run plainRadio calls = .ok ue ∧
      (ue.sends.map fun x => (x.dst, x.recorded)) = l := by
  unfold sentBy at h
  split at h
  · rename_i ue hrun
    exact ⟨ue, hrun, h⟩
  · exact absurd h.symm hne

/-- At cell 2, two frames of the attach. -/
theorem frames_reach_their_cell_attached :
    ∃ ue, phone.run plainRadio attachCalls = .ok ue ∧ ue.sends.length = 2 ∧ ∀ x ∈ ue.sends,
      x.recorded = some x.dst := by
  have hsent : sentBy attachCalls = [(102, some 102), (102, some 102)] := by decide +kernel
  obtain ⟨ue, hrun, hsends⟩ := run_of_sentBy hsent (List.cons_ne_nil _ _)
  refine ⟨ue, hrun, ?_, frames_reach_their_cell phoneConfig (by decide +kernel) hrun⟩
  exact (List.length_map _).symm.trans (congrArg List.length hsends)

/-- When it detaches from cell 2, with cell 1 in the table, the phone says so to cell 1. -/
theorem detach_goes_astray : ¬ ∀ (calls : List (Now × UeCall ℤ)) (ue : Ue .plain ℤ),
    phone.run plainRadio calls = .ok ue → ∀ x ∈ ue.sends, x.recorded = some x.dst := by
  intro h
  have hsent : sentBy (attachCalls ++ [(⟨400, 400⟩, .detach)]) =
      [(102, some 102), (102, some 102), (101, some 102)] := by decide +kernel
  obtain ⟨ue, hrun, hsends⟩ := run_of_sentBy hsent (List.cons_ne_nil _ _)
  have hmem : ((101, some 102) : UInt32 × Option UInt32) ∈ ue.sends.map fun x =>
    (x.dst, x.recorded) := by
    rw [hsends]
    decide
  obtain ⟨x, hx, heq⟩ := List.mem_map.mp hmem
  obtain ⟨hdst, hrecorded⟩ := Prod.mk.inj heq
  have hsame := h _ ue hrun x hx
  rw [hdst, hrecorded] at hsame
  exact absurd hsame (by decide)

end EvansComputer.Cell.Ue
