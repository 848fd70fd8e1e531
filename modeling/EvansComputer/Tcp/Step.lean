import EvansComputer.Tcp.Tcb
import Mathlib.Logic.Relation

/-!
# Runs of one connection

What can happen to a transmission control block between its creation and its
end: the calls its owner makes, the timer, and segments from the network.  A
segment is arbitrary --- nothing here assumes an honest peer --- and so is the
clock, which need not even be monotone.

`write` is guarded as `Stack::tcp_send` guards it: in a state that refuses data
the call fails before it reaches the block.  `accept` is the stack handing the
block to the user.
-/

namespace EvansComputer.Tcp

/-- Something that happens to a connection. -/
inductive Call where
  | write (data : List Byte) (now : ℤ)
  | read (cap : ℕ)
  | shutdownWrite (now : ℤ)
  | close (now : ℤ)
  | abort
  | fail (err : NetError)
  | onUnreachable
  | accept
  | onTimer (now : ℤ)
  | onSegment (h : TcpHeader) (payload : List Byte) (now : ℤ)

/-- Every event but a segment from the network. -/
def Call.isLocal : Call → Bool
  | .onSegment .. => false
  | _ => true

namespace Tcb

/-- The states in which `Stack::tcp_send` passes data to the block. -/
def mayWrite (t : Tcb) : Bool :=
  match t.state with
  | .synSent | .synReceived | .established | .closeWait => true
  | _ => false

/-- One event: the block after it and the segments it emitted. -/
def step (t : Tcb) : Call → Tcb × List Seg
  | .write data now =>
    if t.mayWrite then ((t.write data now []).1, (t.write data now []).2.1) else (t, [])
  | .read cap => ((t.read cap []).1, (t.read cap []).2.1)
  | .shutdownWrite now => t.shutdownWrite now []
  | .close now => ((t.close now []).1, (t.close now []).2.1)
  | .abort => { t with userOpen := false }.abort []
  | .fail err => (t.fail err, [])
  | .onUnreachable => (t.onUnreachable, [])
  | .accept => ({ t with userOpen := true }, [])
  | .onTimer now => t.onTimer now []
  | .onSegment h payload now => t.onSegment h payload now []

/-- The bytes an event adds to what the peer is to receive: what `write`
accepted. -/
def accepted (t : Tcb) : Call → List Byte
  | .write data now => if t.mayWrite then data.take (t.write data now []).2.2 else []
  | _ => []

/-- The bytes an event hands to the user. -/
def returned (t : Tcb) : Call → List Byte
  | .read cap => (t.read cap []).2.2
  | _ => []

/-- A block as `new_connect` or `new_passive` makes it. -/
inductive Initial : Tcb → Prop
  | connect (localAddr remote : SocketAddr) (iss : Seq) (now : ℤ) :
      Initial (newConnect localAddr remote iss now []).1
  | passive (localAddr remote : SocketAddr) (iss : Seq) (syn : TcpHeader) (now : ℤ) :
      Initial (newPassive localAddr remote iss syn now []).1

/-- A state some run of a connection passes through. -/
inductive Reachable : Tcb → Prop
  | init {t : Tcb} : Initial t → Reachable t
  | step {t : Tcb} (c : Call) : Reachable t → Reachable (t.step c).1

/-- An invariant that holds initially and along every event holds in every
reachable state. -/
theorem Reachable.invariant {P : Tcb → Prop} (hinit : ∀ t, Initial t → P t)
    (hstep : ∀ t c, P t → P (t.step c).1) {t : Tcb} (h : Reachable t) : P t := by
  induction h with
  | init h => exact hinit _ h
  | step c _ ih => exact hstep _ c ih

end EvansComputer.Tcp.Tcb
