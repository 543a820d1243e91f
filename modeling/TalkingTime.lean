import TalkingTime.Library.Runs
import TalkingTime.Library.Census
import TalkingTime.Library.Mail
import TalkingTime.Library.Countdown
import TalkingTime.Library.Serial
import TalkingTime.Library.SignedRange
import TalkingTime.Library.Bytes
import TalkingTime.Library.Loop
import TalkingTime.Library.FuA
import TalkingTime.Library.Framing
import TalkingTime.Queue.TinyMesgQueue
import TalkingTime.Queue.Sections
import TalkingTime.Queue.Fifo
import TalkingTime.Queue.Statements
import TalkingTime.Queue.MutualExclusion
import TalkingTime.Queue.Refinement
import TalkingTime.Rtp.Session
import TalkingTime.Rtp.Blocks
import TalkingTime.Rtp.Packetiser
import TalkingTime.Rtp.Fragments
import TalkingTime.Rtp.Payloads
import TalkingTime.Rtp.Delivery
import TalkingTime.Rtp.Inversion
import TalkingTime.Rtp.RawSender
import TalkingTime.Rtp.RawFraming
import TalkingTime.Kcp.Segment
import TalkingTime.Kcp.ControlBlock
import TalkingTime.Kcp.Receive
import TalkingTime.Kcp.Input
import TalkingTime.Kcp.Flush
import TalkingTime.Kcp.Halves
import TalkingTime.Kcp.Arrival
import TalkingTime.Kcp.Reading
import TalkingTime.Kcp.Departure
import TalkingTime.Kcp.Handover
import TalkingTime.Kcp.Connection
import TalkingTime.Kcp.Contents
import TalkingTime.Kcp.Endpoint
import TalkingTime.Kcp.Bounds
import TalkingTime.Kcp.RoundTrip
import TalkingTime.Kcp.Sizes
import TalkingTime.Kcp.Reliability
import TalkingTime.Kcp.Datagram
import TalkingTime.Kcp.Clock
import TalkingTime.Kcp.Blocking
import TalkingTime.Kcp.Definedness
import TalkingTime.Kcp.Reaction
import TalkingTime.Kcp.Recovery
import TalkingTime.Kcp.Flight
import TalkingTime.Kcp.Acknowledgement
