import EvansComputer.Cell.AdminMoves

/-!
# Runs of the core

A run is what the driver of the core makes of it: calls in any order, with anything in
them.  The one call that does several things is `on_bytes`, which takes message after
message off a stream; it is the arrival of the bytes and then one turn for each message
(`onBytes_eq_steps`), so that a condition can be put on the state in which a message is
handled, also where several came at once.

Every step is moves (`meets_step`), with the labels that the input lets.  The number of a
run is how many sessions have begun in it: a step that begins one moves the next session id
on, and no step begins two.
-/

namespace EvansComputer.Cell

/-- What a driver does to the core. -/
inductive Input where
  | connect (c : ConnId) (peer : Ipv4Addr)
  | disconnect (c : ConnId)
  /-- Bytes join the stream of a connection. -/
  | arrive (c : ConnId) (bytes : List Byte)
  /-- A turn over the stream of a connection. -/
  | turn (c : ConnId)
  | tunnel (src : SocketAddr) (bytes : List Byte)
  | lan (pkt : List Byte)
  | tick
  | admin (line : Str)
  | bearerSetup (ueIp : Ipv4Addr) (uePort : UInt16) (remote : Ipv4Addr) (remotePort : UInt16)
  | bearerRelease (ueIp : Ipv4Addr) (bid : Byte)

/-- A connection has an id that no other has. -/
def Input.Fresh (core : Core) : Input → Prop
  | connect c _ => core.conns[c]? = none
  | _ => True

namespace Core

open Carrier Exec

variable {core core' core₀ : Core} {ok ok' : Core → Input → Prop} {safe : Prop} {n : ℕ}

def step (core : Core) (i : Input) (now : ℕ) : Exec Core :=
  match i with
  | .connect c peer => core.onConnect c peer now
  | .disconnect c => .ok (core.onDisconnect c now)
  | .arrive c bytes => .ok (core.pushBytes c bytes now)
  | .turn c => do return (← core.bytesTurn c now).1
  | .tunnel src bytes => core.onTunnel src bytes now
  | .lan pkt => core.onLanPacket pkt now
  | .tick => core.tick now
  | .admin line => do return (← core.admin line now).1
  | .bearerSetup ueIp uePort remote remotePort => do
    return (← core.bearerSetup ueIp uePort remote remotePort).1
  | .bearerRelease ueIp bid => do return (← core.bearerRelease ueIp bid).1

/-- Inputs one after another, at one time. -/
def steps (core : Core) (is : List Input) (now : ℕ) : Exec Core :=
  is.foldlM (fun core i => core.step i now) core

/-- What the labels of a step may be, and what is known of the state where each is made. -/
inductive StepLets (core : Core) : Input → Carrier → Label → Prop
  | quiet (i : Input) (v : Carrier) : StepLets core i v .quiet
  | turn {c : ConnId} {v : Carrier} {l : Label} (h : core.TurnLets c v l) :
  StepLets core (.turn c) v l
  | admin {line : Str} {v : Carrier} {l : Label} (h : AdminLets line v l) :
  StepLets core (.admin line) v l

/-- **A step is moves**, and asserts nothing that is not so. -/
theorem meets_step (i : Input) (now : ℕ) (hfresh : i.Fresh core)
    (hsafe : safe → core.carrier.Indexed) :
    Meets safe (core.step i now) fun core' => Moves
      (core.StepLets i) core.carrier core'.carrier := by
  have hq : ∀ v, core.StepLets i v .quiet := .quiet i
  cases i with
  | connect c peer => exact meets_onConnect hq hfresh peer now
  | disconnect c => exact moves_onDisconnect hq c now
  | arrive c bytes => exact Moves.of_eq (carrier_pushBytes c bytes now).symm
  | turn c =>
    refine Meets.bind (meets_bytesTurn c now hsafe) fun r h => meets_pure ?_
    exact h.mono fun v l => .turn
  | tunnel src bytes => exact meets_onTunnel hq src bytes now
  | lan pkt => exact meets_onLanPacket hq pkt now
  | tick => exact meets_tick hq now
  | admin line =>
    refine Meets.bind (kept_admin line now) fun r h => meets_pure ?_
    exact h.mono fun v l => .admin
  | bearerSetup ueIp uePort remote remotePort =>
    refine Meets.bind (meets_bearerSetup ueIp uePort remote remotePort hsafe) fun r h =>
      meets_pure ?_
    exact Moves.of_eq h.symm
  | bearerRelease ueIp bid =>
    refine Meets.bind (meets_bearerRelease ueIp bid hsafe) fun r h => meets_pure ?_
    exact Moves.of_eq h.symm

/-- A call of `on_bytes` is the arrival of the bytes and turns over the stream. -/
theorem onBytes_eq_steps (core : Core) (c : ConnId) (bytes : List Byte) (now : ℕ) :
    ∃ k, core.onBytes c bytes now = core.steps
      (.arrive c bytes :: List.replicate k (.turn c)) now := by
  have hloop : ∀ (fuel : ℕ) (core : Core), ∃ k,
      bytesLoop c now fuel core = core.steps (List.replicate k (.turn c)) now := by
    intro fuel
    induction fuel with
    | zero => exact fun core => ⟨0, rfl⟩
    | succ fuel ih =>
      intro core
      cases hturn : core.bytesTurn c now with
      | error e =>
        refine ⟨1, ?_⟩
        rw [bytesLoop, hturn, steps, List.replicate_one, List.foldlM_cons, step, hturn]
        rfl
      | ok r =>
        have hstep : core.step (.turn c) now = .ok r.1 := by
          rw [step, hturn]
          rfl
        have hfirst : ∀ k, core.steps (List.replicate (k + 1) (.turn c)) now =
            r.1.steps (List.replicate k (.turn c)) now := by
          intro k
          rw [steps, List.replicate_succ, List.foldlM_cons, hstep]
          rfl
        cases hmore : r.2 with
        | false =>
          refine ⟨1, ?_⟩
          rw [hfirst, bytesLoop, hturn]
          change (if r.2 = true then _ else _) = _
          rw [hmore]
          rfl
        | true =>
          obtain ⟨k, hk⟩ := ih r.1
          refine ⟨k + 1, ?_⟩
          rw [hfirst, ← hk, bytesLoop, hturn]
          change (if r.2 = true then _ else _) = _
          rw [hmore]
          rfl
  obtain ⟨k, hk⟩ :=
    hloop (((core.pushBytes c bytes now).conns[c]?).elim 0 fun conn => conn.framer.buf.length + 1)
    (core.pushBytes c bytes now)
  refine ⟨k, ?_⟩
  rw [onBytes, hk, steps, steps, List.foldlM_cons]
  rfl

/-! ## Runs -/

/-- One if a session began. -/
def began (core core' : Core) : ℕ := if core'.nextSession = core.nextSession then 0 else 1

/-- **A run** with `n` sessions begun, every step of which is one that `ok` lets. -/
inductive Run (ok : Core → Input → Prop) (core₀ : Core) : ℕ → Core → Prop
  | refl : Run ok core₀ 0 core₀
  | step {n : ℕ} {core core' : Core} {i : Input} {now : ℕ} (h : Run ok core₀ n core)
      (hfresh : i.Fresh core) (hok : ok core i) (hstep : core.step i now = .ok core') :
      Run ok core₀ (n + core.began core') core'

/-- What a step of a run comes to. -/
theorem moves_of_step {i : Input} {now : ℕ} (hfresh : i.Fresh core)
    (hstep : core.step i now = .ok core') :
    Moves (core.StepLets i) core.carrier core'.carrier := by
  have h : Meets False (core.step i now) _ := meets_step i now hfresh False.elim
  exact h.ok hstep

/-- **What every move that a step lets keeps, a run keeps.** -/
theorem Run.induction {I : Carrier → Prop} (h : Run ok core₀ n core) (hstart : I core₀.carrier)
    (hmove : ∀ core i v l v', ok core i → core.StepLets i v l → Move v l v' → I v → I v') :
    I core.carrier := by
  induction h with
  | refl => exact hstart
  | step _ hfresh hok hstep ih =>
    exact (moves_of_step hfresh hstep).induction
      (fun v l v' hl hmove' => hmove _ _ v l v' hok hl hmove') ih

/-! ## Runs on fixed inputs -/

/-- Inputs one after another, each of which has to pass a check. -/
def stepsIf (check : Core → Input → Bool) (core : Core) (is : List Input) (now : ℕ) : Exec Core :=
  is.foldlM (fun core i => if check core i then core.step i now else .error .starved) core

/-- Nobody connects. -/
def connectsNone (is : List Input) : Bool := is.all fun i => match i with
  | .connect .. => false
  | _ => true

theorem fresh_of_connectsNone {is : List Input} (h : connectsNone is) :
    ∀ i ∈ is, ∀ core, i.Fresh core := by
  intro i hi core
  have hnot := List.all_eq_true.mp h i hi
  cases i with
  | connect c peer => cases hnot
  | _ => trivial

/-- Inputs that pass a check are a run of steps for which it stands. -/
theorem run_of_stepsIf (ok : Core → Input → Prop) {check : Core → Input → Bool} {is : List Input}
    {now : ℕ} (h : Run ok core₀ n core) (hfresh : ∀ i ∈ is, ∀ core, i.Fresh core)
    (hcheck : ∀ core i, check core i → ok core i) (hsteps : core.stepsIf check is now = .ok core') :
    ∃ m, m ≤ n + is.length ∧ Run ok core₀ m core' := by
  induction is generalizing core n with
  | nil =>
    cases hsteps
    exact ⟨n, Nat.le_refl _, h⟩
  | cons i is ih =>
    rw [stepsIf, List.foldlM_cons] at hsteps
    obtain ⟨core₁, hstep, hrest⟩ := exists_of_bind_eq_ok hsteps
    by_cases hpass : check core i = true
    · rw [if_pos hpass] at hstep
      have hbegan : core.began core₁ ≤ 1 := by
        unfold began
        split_ifs <;> omega
      obtain ⟨m, hm, hrun⟩ :=
        ih (h.step (hfresh i List.mem_cons_self core) (hcheck core i hpass) hstep)
        (fun i' hi' => hfresh i' (List.mem_cons_of_mem _ hi')) hrest
      refine ⟨m, ?_, hrun⟩
      rw [List.length_cons]
      omega
    · rw [if_neg hpass] at hstep
      cases hstep

/-- The messages of a site that has registered, as they are on its stream. -/
def controlStream (ch : BhChannel) (ms : List Ctl) : List Byte :=
  (ms.foldl (fun st m =>
    let (ch, bytes) := st.1.sealCtl m.body
    (ch, st.2 ++ bytes)) (ch, ([] : List Byte))).2

/-- What becomes of a core over the database in `text`, one site of which connects first,
where every step has to pass a check. -/
def scenarioIf (check : Core → Input → Bool) (prim : Primitives) (text : Str) (entropy : List Byte)
    (is : List Input) : Exec Core :=
  match Db.parse text with
  | .error _ => .error .starved
  | .ok db => do
    let core ← Core.new prim db {} entropy
    core.stepsIf check (.connect 0 ⟨10, 0, 0, 1⟩ :: is) 0

/-- The same without a check. -/
def scenario : Primitives → Str → List Byte → List Input → Exec Core := scenarioIf fun _ _ => true

theorem run_of_scenario (ok : Core → Input → Prop) {check : Core → Input → Bool} {prim : Primitives}
    {text : Str} {entropy : List Byte} {is : List Input} (hfresh : connectsNone is)
    (hcheck : ∀ core i, check core i → ok core i)
    (h : scenarioIf check prim text entropy is = .ok core) :
    ∃ db core₀ n, Db.parse text = .ok db ∧ Core.new prim db {} entropy = .ok core₀ ∧
      Run ok core₀ n core ∧ n ≤ is.length + 1 := by
  unfold scenarioIf at h
  cases hparse : Db.parse text with
  | error e => rw [hparse] at h; cases h
  | ok db =>
    rw [hparse] at h
    obtain ⟨core₀, hnew, hsteps⟩ := exists_of_bind_eq_ok h
    have hfirst : (Input.connect 0 ⟨10, 0, 0, 1⟩).Fresh core₀ := by
      unfold Core.new at hnew
      cases hsplit : splitOff 4 entropy with
      | none => rw [hsplit] at hnew; cases hnew
      | some p =>
        rw [hsplit] at hnew
        dsimp only at hnew
        split_ifs at hnew <;> cases hnew <;> rfl
    rw [stepsIf, List.foldlM_cons] at hsteps
    obtain ⟨core₁, hstep, hrest⟩ := exists_of_bind_eq_ok hsteps
    by_cases hpass : check core₀ (.connect 0 ⟨10, 0, 0, 1⟩) = true
    · rw [if_pos hpass] at hstep
      have hrun₁ := Run.refl.step hfirst (hcheck _ _ hpass) hstep
      have hbegan : core₀.began core₁ ≤ 1 := by
        unfold began
        split_ifs <;> omega
      obtain ⟨m, hm, hrun⟩ := run_of_stepsIf ok hrun₁ (fresh_of_connectsNone hfresh) hcheck hrest
      exact ⟨db, core₀, m, rfl, hnew, hrun, by omega⟩
    · rw [if_neg hpass] at hstep
      cases hstep

end EvansComputer.Cell.Core
