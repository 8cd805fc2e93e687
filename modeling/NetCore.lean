import NetCore.Lib.Run
import NetCore.Lib.Tiling
import NetCore.Segment
import NetCore.EpollReactor
import NetCore.IPAdpt
import NetCore.ITunnel
import NetCore.BufferQueue
import NetCore.TCPSession
import NetCore.TCPSession.Flush
import NetCore.TCPSession.BackInvariant
import NetCore.TCPSession.Accept
import NetCore.TCPSession.StepInvariant
import NetCore.TCPSession.Birth
import NetCore.TCPSession.Sequence
import NetCore.TCPSession.Download
import NetCore.TCPSession.Drain
import NetCore.TCPSession.Upload
import NetCore.Cipher
import NetCore.Lib.Frame
import NetCore.TCPSession.Transient
import NetCore.Cipher.Chain
import NetCore.Cipher.Parcel
import NetCore.Cipher.Hostile
import NetCore.Cipher.RoundTrip
import NetCore.Socks5Proxy
import NetCore.Socks5Proxy.Receive
import NetCore.Socks5Proxy.Delivery
import NetCore.Socks5Proxy.Handshake
import NetCore.Lib.Heap
import NetCore.Router
import NetCore.Router.Holding
import NetCore.Router.Wakeup
import NetCore.UDPSession
import NetCore.UDPSession.Outlet
import NetCore.UDPSession.Wakeup
import NetCore.System
import NetCore.System.Replay
import NetCore.Socks5Proxy.Client
import NetCore.UDPSession.Packets
import NetCore.System.Ownership
import NetCore.TCPSession.Finish
import NetCore.ITunnel.Gate
import NetCore.TCPSession.BackPressure
import NetCore.EpollReactor.Loop
import NetCore.EpollReactor.Table
import NetCore.EpollReactor.Mirror
import NetCore.EpollReactor.Dispatch
import NetCore.Lib.LinkedMap
import NetCore.PacketCapture
import NetCore.VpnConfig
import NetCore.VpnConfig.RoundTrip
import NetCore.VpnConfig.Load
import NetCore.TCPSession.Window
import NetCore.Lib.Serial
import NetCore.TCPSession.FinNumbers
import NetCore.TCPSession.PassOn
import NetCore.Socks5Proxy.Stock
import NetCore.TCPSession.Proxied
import NetCore.TCPSession.Interest
import NetCore.TCPSession.AckTurns
import NetCore.TCPSession.Closed
import NetCore.IPAdpt.Options
import NetCore.TCPSession.Order
import NetCore.TCPSession.Sack
import NetCore.IPAdpt.Checksum
import NetCore.System.Checksums
import NetCore.Cipher.Estimate
import NetCore.Cipher.Corrupt
import NetCore.Socks5Proxy.Wedge
import NetCore.Socks5Proxy.Methods
import NetCore.Lib.Loop
import NetCore.System.Writable
import NetCore.TCPSession.Lifetime
import NetCore.Lib.Registry
import NetCore.UDPSession.Lifetime
import NetCore.Router.Sessions
import NetCore.Router.OneLive
import NetCore.EpollReactor.Refused
import NetCore.Lib.LengthPrefix
import NetCore.Socks5Proxy.Requests
import NetCore.Dns
import NetCore.Dns.Bounds
import NetCore.TCPSession.StepRelation
import NetCore.TCPSession.Pauses
import NetCore.TCPSession.Scale
import NetCore.TCPSession.Traffic
import NetCore.UDPSession.Link
import NetCore.UDPSession.Traffic
import NetCore.System.Traffic
import NetCore.TCPSession.Accounts
import NetCore.TCPSession.Reads
import NetCore.UDPSession.Forward
import NetCore.UDPSession.StepRelation
import NetCore.UDPSession.Activity
import NetCore.Socks5Proxy.Queues
import NetCore.Router.Readable
import NetCore.Router.Lengths
import NetCore.Router.Reads
import NetCore.Cipher.Section
import NetCore.Dns.Names
import NetCore.Lib.Fifo
import NetCore.Segment.Fifo
import NetCore.Lib.Ascending
import NetCore.TCPSession.ForwardQueue
import NetCore.TCPSession.Rebase
import NetCore.TCPSession.Independence
import NetCore.Lib.Outbox
import NetCore.Router.Stream
import NetCore.Router.WriteOut
import NetCore.System.Packets
import NetCore.System.Stream
import NetCore.TCPSession.Acknowledge
import NetCore.System.Acknowledge
import NetCore.EventDispatcher.Delivery
import NetCore.PacketCapture.Pipeline
import NetCore.System.Shutdown
import NetCore.Lib.Reassembly
import NetCore.Lib.Reaches
import NetCore.System.Reassembly
import NetCore.System.Download
import NetCore.System.Upload
import NetCore.System.Direct
import NetCore.System.Outlet
import NetCore.System.Sending
