import EvansComputer.Tcp.Timers
import EvansComputer.Tcp.ReceiveWindow
import EvansComputer.Tcp.Stream
import EvansComputer.Cell.Handover
import EvansComputer.Cell.ControlStream
import EvansComputer.Cell.DbRuns
import EvansComputer.Switch.JoinedPorts
import EvansComputer.Switch.SpanningTree
import EvansComputer.Switch.Partners
import EvansComputer.Dns.Convergence
import EvansComputer.Dns.Clients
import EvansComputer.Dns.Bailiwick
import EvansComputer.Dns.Freshness
import EvansComputer.Dns.Patterns
import EvansComputer.Dns.Portability
import EvansComputer.Dns.Holdings
import EvansComputer.Wifi.Handshake
import EvansComputer.Tel.LongTexts
import EvansComputer.Tel.Acknowledgements
import EvansComputer.Net.StubWire
import EvansComputer.Tel.SipRoundTrip
import EvansComputer.Tel.Txns
import EvansComputer.Router.NatFailures
import EvansComputer.Router.NatQuotes
import EvansComputer.Net.DhcpDeclines
import EvansComputer.Bgp.Malformed
import EvansComputer.Cell.AirRoundTrip
import EvansComputer.Cell.SegmentRuns
import EvansComputer.Cell.FairScheduling
import EvansComputer.Dsp.RsChecked
import EvansComputer.Dsp.FreeDistance
import EvansComputer.Router.CliRuns
import EvansComputer.Rtp.RxStats
import EvansComputer.Rtp.JitterBuffer
import EvansComputer.Dsp.RadioLink
import EvansComputer.Cell.UeUplink
import EvansComputer.Cell.StreamEnds
import EvansComputer.Tel.Calendar
import EvansComputer.Dsp.Crc
