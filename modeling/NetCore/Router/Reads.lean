import NetCore.Router.Readable

/-!
# Runs over bytes and runs over packets

`onReadable` works on the bytes that `read` has left in `mIPData`, `Sessions.step` on packets.  As long
as the lengths in the packets agree with each other and with the memory, a run over the bytes is the run
over the packets that they hold, and what `accept` branches on is the same on both sides.
-/

namespace NetCore

/-- The lengths agree in the packet of a read, if it is one of the two protocols'. -/
def TunRead.Agrees (read : TunRead) : Prop :=
  (getProtocol read.mIPData = protoUDP → datagramAt read.mIPData ≠ none) ∧
    (getProtocol read.mIPData = protoTCP → packetAt read.mIPData ≠ none)

instance (read : TunRead) : Decidable read.Agrees := inferInstanceAs (Decidable ((_ → _) ∧ (_ → _)))

namespace Sessions

variable {τ : Type}

/-- A read of the tun, with what a session that is built for it is given, or any other event. -/
inductive Input (τ : Type) where
  | readable (setup : TunSetup τ) (read : TunRead)
  | other (e : Event τ)

namespace Input

def Agrees : Input τ → Prop
  | .readable _ read => read.Agrees
  | .other _ => True

/-- The event that the bytes are; nothing comes of a packet of another protocol. -/
def event : Input τ → Option (Event τ)
  | .readable setup read =>
      let ip := read.mIPData
      if getProtocol ip = protoUDP then
        (datagramAt ip).map fun udp => .routeUDP (flowHeader ip) udp setup.udp
      else if getProtocol ip = protoTCP then
        (packetAt ip).map fun tcp => .routeTCP (flowHeader ip) tcp setup.tcp
      else none
  | .other e => some e

end Input

variable [ITunnel τ]

def take (r : Sessions τ) : Input τ → Option (Sessions τ)
  | .readable setup read => onReadable setup read r
  | .other e => r.step e

end Sessions

end NetCore
