import TalkingTime.Kcp.Segment
import TalkingTime.Library.Countdown

/-! The control block of a KCP connection, its creation and settings, and
`ikcp_send`, which cuts messages into fragments. -/

namespace TalkingTime.Kcp

/-- One of the four lists of segments together with its counter. -/
structure SegQueue where
  segs : List IKCPSEG
  count : UInt32
  counted : count = UInt32.ofNat segs.length

namespace SegQueue

def empty : SegQueue := ⟨[], 0, rfl⟩

variable (queue : SegQueue)

def grown (segs : List IKCPSEG) (more : segs.length = queue.segs.length + 1) : SegQueue where
  segs := segs
  count := queue.count + 1
  counted := by rw [queue.counted, more, UInt32.ofNat_add]; rfl

def shrunk (segs : List IKCPSEG) (fewer : segs.length + 1 = queue.segs.length) : SegQueue where
  segs := segs
  count := queue.count - 1
  counted := by
    have last : UInt32.ofNat (segs.length + 1) = UInt32.ofNat segs.length + 1 :=
      UInt32.ofNat_add segs.length 1
    rw [queue.counted, ← fewer, last, UInt32.add_sub_cancel]

def map (change : IKCPSEG → IKCPSEG) : SegQueue where
  segs := queue.segs.map change
  count := queue.count
  counted := by rw [queue.counted, List.length_map]

def addTail (seg : IKCPSEG) : SegQueue :=
  queue.grown (queue.segs ++ [seg]) (by rw [List.length_append, List.length_singleton])

def delHead : SegQueue :=
  if linked : queue.segs ≠ [] then
    queue.shrunk queue.segs.tail (by
      have positive := List.length_pos_iff.mpr linked
      rw [List.length_tail]
      omega)
  else queue

@[simp] theorem empty_segs : empty.segs = [] := rfl

@[simp] theorem grown_segs (segs : List IKCPSEG) (more : segs.length = queue.segs.length + 1) :
    (queue.grown segs more).segs = segs := rfl

@[simp] theorem shrunk_segs (segs : List IKCPSEG) (fewer : segs.length + 1 = queue.segs.length) :
    (queue.shrunk segs fewer).segs = segs := rfl

@[simp] theorem map_segs (change : IKCPSEG → IKCPSEG) :
    (queue.map change).segs = queue.segs.map change := rfl

@[simp] theorem addTail_segs (seg : IKCPSEG) : (queue.addTail seg).segs = queue.segs ++ [seg] := rfl

@[simp] theorem delHead_segs : queue.delHead.segs = queue.segs.tail := by
  unfold delHead
  split
  · rfl
  · rename_i nothing
    rw [not_not.mp nothing]
    rfl

theorem count_toNat (few : queue.segs.length < 2 ^ 32) : queue.count.toNat = queue.segs.length := by
  rw [queue.counted, UInt32.toNat_ofNat_of_lt' few]

end SegQueue

def IKCP_RTO_NDL : Int32 := 30
def IKCP_RTO_MIN : Int32 := 100
def IKCP_RTO_DEF : Int32 := 200
def IKCP_RTO_MAX : UInt32 := 60000
def IKCP_ASK_SEND : UInt32 := 1
def IKCP_ASK_TELL : UInt32 := 2
def IKCP_WND_SND : UInt32 := 32
def IKCP_WND_RCV : UInt32 := 32
def IKCP_MTU_DEF : UInt32 := 1400
def IKCP_INTERVAL : UInt32 := 100
def IKCP_DEADLINK : UInt32 := 10
def IKCP_THRESH_INIT : UInt32 := 2
def IKCP_THRESH_MIN : UInt32 := 2
def IKCP_PROBE_INIT : UInt32 := 7000
def IKCP_PROBE_LIMIT : UInt32 := 120000

/-- `struct IKCPCB`. The four counters are in the lists they count, `acklist` holds
the `ackcount` pairs of a number and a time, and `buffer` is the size of the
memory behind the pointer of that name. -/
structure IKCPCB where
  conv : UInt32
  mtu : UInt32
  mss : UInt32
  state : UInt32
  sndUna : UInt32
  sndNxt : UInt32
  rcvNxt : UInt32
  ssthresh : UInt32
  rxRttval : Int32
  rxSrtt : Int32
  rxRto : Int32
  rxMinrto : Int32
  sndWnd : UInt32
  rcvWnd : UInt32
  rmtWnd : UInt32
  cwnd : UInt32
  probe : UInt32
  current : UInt32
  interval : UInt32
  tsFlush : UInt32
  xmit : UInt32
  nodelay : UInt32
  updated : UInt32
  tsProbe : UInt32
  probeWait : UInt32
  deadLink : UInt32
  incr : UInt32
  sndQueue : SegQueue
  rcvQueue : SegQueue
  sndBuf : SegQueue
  rcvBuf : SegQueue
  acklist : List (UInt32 × UInt32)
  buffer : Nat
  fastresend : Int32
  nocwnd : Int32

/-- The size of `kcp->buffer` in 32-bit arithmetic. -/
def bufferSize (mtu : UInt32) : Nat := ((mtu + UInt32.ofNat IKCP_OVERHEAD) * 3).toNat

def ikcpCreate (conv : UInt32) : IKCPCB where
  conv := conv
  sndUna := 0
  sndNxt := 0
  rcvNxt := 0
  tsProbe := 0
  probeWait := 0
  sndWnd := IKCP_WND_SND
  rcvWnd := IKCP_WND_RCV
  rmtWnd := IKCP_WND_RCV
  cwnd := 0
  incr := 0
  probe := 0
  mtu := IKCP_MTU_DEF
  mss := IKCP_MTU_DEF - UInt32.ofNat IKCP_OVERHEAD
  buffer := bufferSize IKCP_MTU_DEF
  sndQueue := SegQueue.empty
  rcvQueue := SegQueue.empty
  sndBuf := SegQueue.empty
  rcvBuf := SegQueue.empty
  state := 0
  acklist := []
  rxSrtt := 0
  rxRttval := 0
  rxRto := IKCP_RTO_DEF
  rxMinrto := IKCP_RTO_MIN
  current := 0
  interval := IKCP_INTERVAL
  tsFlush := IKCP_INTERVAL
  nodelay := 0
  updated := 0
  ssthresh := IKCP_THRESH_INIT
  fastresend := 0
  nocwnd := 0
  xmit := 0
  deadLink := IKCP_DEADLINK

section Settings

variable (kcp : IKCPCB)

def ikcpSetmtu (mtu : Int32) : IKCPCB × Int :=
  if mtu < 50 || mtu < Int32.ofNat IKCP_OVERHEAD then (kcp, -1)
  else
    ({ kcp with
        mtu := mtu.toUInt32
        mss := mtu.toUInt32 - UInt32.ofNat IKCP_OVERHEAD
        buffer := bufferSize mtu.toUInt32 }, 0)

def boundInterval (interval : Int32) : UInt32 :=
  if 5000 < interval then 5000
  else if interval < 10 then 10
  else interval.toUInt32

def ikcpInterval (interval : Int32) : IKCPCB :=
  { kcp with interval := boundInterval interval }

def ikcpNodelay (nodelay interval resend nc : Int32) : IKCPCB :=
  let minrto := if nodelay ≠ 0 then IKCP_RTO_NDL else IKCP_RTO_MIN
  { kcp with
      nodelay := if 0 ≤ nodelay then nodelay.toUInt32 else kcp.nodelay
      rxMinrto := if 0 ≤ nodelay then minrto else kcp.rxMinrto
      interval := if 0 ≤ interval then boundInterval interval else kcp.interval
      fastresend := if 0 ≤ resend then resend else kcp.fastresend
      nocwnd := if 0 ≤ nc then nc else kcp.nocwnd }

def ikcpWndsize (sndwnd rcvwnd : Int32) : IKCPCB :=
  { kcp with
      sndWnd := if 0 < sndwnd then sndwnd.toUInt32 else kcp.sndWnd
      rcvWnd := if 0 < rcvwnd then rcvwnd.toUInt32 else kcp.rcvWnd }

end Settings

/-- The loop of `ikcp_send`. The argument that counts down is `count - i`. -/
def sendLoop (mss : Nat) : Nat → List UInt8 → SegQueue → SegQueue
  | 0, _, queue => queue
  | left + 1, buffer, queue =>
      let size := if mss < buffer.length then mss else buffer.length
      let seg := { ikcpSegmentNew (buffer.take size) with frg := UInt32.ofNat left }
      sendLoop mss left (buffer.drop size) (queue.addTail seg)

def sendCount (mss len : Nat) : Nat := if len ≤ mss then 1 else (len + mss - 1) / mss

/-- `ikcp_send` with the bytes at `buffer`. A call with `len` beyond them is undefined. -/
def ikcpSend (kcp : IKCPCB) (buffer : List UInt8) (len : Int32) : Option (IKCPCB × Int) :=
  let size := len.toNatClampNeg
  let count := sendCount kcp.mss.toNat size
  if len < 0 then some (kcp, -1)
  else if 255 < count then some (kcp, -2)
  else if size ≤ buffer.length then
    let queue := sendLoop kcp.mss.toNat count (buffer.take size) kcp.sndQueue
    some ({ kcp with sndQueue := queue }, 0)
  else none

theorem zero_le_ofNat {size : Nat} (short : size < 2 ^ 31) : 0 ≤ Int32.ofNat size := by
  rw [Int32.le_iff_toInt_le, Int32.toInt_ofNat_of_lt short]
  exact Int.natCast_nonneg size

/-- The bytes that a user sends in one call: their number is an `int`. -/
structure Message where
  bytes : List UInt8
  short : bytes.length < 2 ^ 31
  deriving DecidableEq, Repr

namespace Message

def ofByte (byte : UInt8) : Message := ⟨[byte], (by decide : 1 < 2 ^ 31)⟩

variable (message : Message)

def len : Int32 := Int32.ofNat message.bytes.length

theorem len_toInt : message.len.toInt = message.bytes.length :=
  Int32.toInt_ofNat_of_lt message.short

theorem len_toNat : message.len.toNatClampNeg = message.bytes.length := by
  rw [Int32.toNatClampNeg, len_toInt, Int.toNat_natCast]

theorem len_nonneg : ¬ message.len < 0 := Int32.not_lt.mpr (zero_le_ofNat message.short)

end Message

end TalkingTime.Kcp
