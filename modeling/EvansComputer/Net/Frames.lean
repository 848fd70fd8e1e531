import EvansComputer.Dns.Names
import EvansComputer.Net.AddrText
import EvansComputer.Net.Packet

/-!
# Queries and replies of the DNS stub

What the stub puts on the wire, and what it needs from a response.
-/

namespace EvansComputer

namespace Stub

open Text

/-- The labels of a name in the form of the wire: each after its length. -/
def encodeNameVec (name : List Char) : Option (List Byte) :=
  let name := if name.getLast? = some '.' then name.dropLast else name
  if name = [] then none
  else
    let labels := split (· = '.') name
    if labels.any fun label => label = [] || 63 < Dns.byteLength label then none
    else
      let out := labels.flatMap (fun label =>
        UInt8.ofNat (Dns.byteLength label) :: label.flatMap String.utf8EncodeChar) ++ [0]
      if 255 < out.length then none else some out

/-- What the stub needs from a response. -/
structure Reply where
  rcode : Byte
  /-- Addresses of the name with their times to live. -/
  addrs : List (Ipv4Addr × UInt32)
  /-- The end of a CNAME chain that the answer did not resolve. -/
  cname : Option (List Char)

end Stub

end EvansComputer
