import Ns3.Network.SequenceNumber
import Mathlib.Data.List.Basic

/-!
# TcpTxBuffer

The send buffer of a TCP socket: the items that were sent and not yet acknowledged, with the flags
of the SACK scoreboard, and the data of the application that was not sent.

An item has an address, and the iterator of `m_highestSack` is the address of its item; `none`
stands for `m_sentList.end ()`. A failed assertion is a fault, and so is a loop that does not end.
-/

namespace Ns3.Internet

open Ns3.Network

inductive TxFault
  | abort
  | assertion
  | nullPointer
  | endIterator
  | endless
deriving DecidableEq, Repr

structure TcpTxItem where
  address : ℕ
  m_startSeq : SequenceNumber32 := ⟨0⟩
  m_packet : List UInt8
  m_lost : Bool := false
  m_sacked : Bool := false
  m_retrans : Bool := false
deriving DecidableEq, Repr

/-- `m_packet->GetSize ()`. -/
def TcpTxItem.size (item : TcpTxItem) : ℕ := item.m_packet.length

structure TcpTxBuffer where
  m_appList : List TcpTxItem := []
  m_sentList : List TcpTxItem := []
  m_maxBuffer : ℕ := 32768
  m_size : ℕ := 0
  m_sentSize : ℕ := 0
  m_firstByteSeq : SequenceNumber32
  m_highestSack : Option ℕ × SequenceNumber32 := (none, ⟨0⟩)
  m_lostOut : ℕ := 0
  m_sackedOut : ℕ := 0
  m_retrans : ℕ := 0
  m_dupAckThresh : ℕ := 0
  m_segmentSize : ℕ := 0
  m_sackEnabled : Bool := true
  /-- The address of the next new item. -/
  nextItem : ℕ := 0
deriving DecidableEq, Repr

/-- `SequenceNumber32 + uint32_t`. -/
def plus (seq : SequenceNumber32) (n : ℕ) : SequenceNumber32 := seq.add ⟨n⟩

/-- `+=` of a `uint32_t`. -/
def addTo (a b : ℕ) : ℕ := (a + b) % 2 ^ 32

/-- `-=` of a `uint32_t`. -/
def takeFrom (a b : ℕ) : ℕ := SequenceNumber32.diff a b

def check (p : Prop) [Decidable p] : Except TxFault Unit :=
  if p then .ok () else .error .assertion

namespace TcpTxBuffer

/-- The sequence number after the last sent byte, SND.NXT. -/
def sentEnd (b : TcpTxBuffer) : SequenceNumber32 := plus b.m_firstByteSeq b.m_sentSize

def tailSequence (b : TcpTxBuffer) : SequenceNumber32 := plus b.m_firstByteSeq b.m_size

def available (b : TcpTxBuffer) : ℕ := takeFrom b.m_maxBuffer b.m_size

def setHeadSequence (b : TcpTxBuffer) (seq : SequenceNumber32) : Except TxFault TcpTxBuffer := do
  check (b.m_sentList = [])
  return { b with m_firstByteSeq := seq, m_highestSack := (none, ⟨0⟩) }

def add (b : TcpTxBuffer) (p : List UInt8) : TcpTxBuffer × Bool :=
  if p.length ≤ b.available then
    if 0 < p.length then
      ({ b with
        m_appList := b.m_appList ++ [{ address := b.nextItem, m_packet := p }]
        m_size := addTo b.m_size p.length
        nextItem := b.nextItem + 1 }, true)
    else (b, true)
  else (b, false)

def sizeFromSequence (b : TcpTxBuffer) (seq : SequenceNumber32) : ℕ :=
  if b.tailSequence.ge seq then SequenceNumber32.toUint32 (b.tailSequence.sub seq) else 0

/-! ### Items of a list -/

/-- `SplitItems`: the first `size` bytes go to a new item. -/
def splitItems (item : TcpTxItem) (size address : ℕ) : TcpTxItem × TcpTxItem :=
  ({ item with address := address, m_packet := item.m_packet.take size },
    { item with m_packet := item.m_packet.drop size, m_startSeq := plus item.m_startSeq size })

/-- `MergeItems`, with the counter `m_retrans`. -/
def mergeItems (t1 t2 : TcpTxItem) (retrans : ℕ) : Except TxFault (TcpTxItem × ℕ) := do
  check (t1.m_sacked = t2.m_sacked)
  check (t1.m_lost = t2.m_lost)
  let merged := { t1 with m_packet := t1.m_packet ++ t2.m_packet }
  if t1.m_retrans = t2.m_retrans then return (merged, retrans)
  else if t1.m_retrans then
    return ({ merged with m_retrans := false }, takeFrom retrans t1.size)
  else return (merged, takeFrom retrans t2.size)

/-- What `GetPacketFromList` may change: the list, the counter `m_retrans` and the next address. -/
structure Edit where
  list : List TcpTxItem
  retrans : ℕ
  nextItem : ℕ
deriving DecidableEq, Repr

/-- One run of `GetPacketFromList` over the items after `passed`: the address of the item that is
returned, or `none` where the function calls itself again. -/
def walkList (first : SequenceNumber32) (sent : Bool) (numBytes : ℕ) (seq : SequenceNumber32)
    (e : Edit) : List TcpTxItem → SequenceNumber32 → List TcpTxItem →
    Except TxFault (Edit × Option ℕ)
  | _, _, [] => .error .abort
  | passed, beginOfCurrent, current :: rest => do
    check (sent = true → current.m_startSeq.ge first = true)
    let endOfCurrent := plus beginOfCurrent current.size
    if seq.lt endOfCurrent then
      if seq = beginOfCurrent then
        if (plus seq numBytes).le endOfCurrent then
          if numBytes = current.size then
            return ({ e with list := passed ++ current :: rest }, some current.address)
          else if numBytes < current.size then
            let (firstPart, current) := splitItems current numBytes e.nextItem
            return ({ e with
              list := passed ++ firstPart :: current :: rest
              nextItem := e.nextItem + 1 }, some firstPart.address)
          else .error .endless
        else
          match rest with
          | [] => return ({ e with list := passed ++ [current] }, some current.address)
          | next :: rest => do
            let (merged, retrans) ← mergeItems current next e.retrans
            return ({ e with list := passed ++ merged :: rest, retrans := retrans }, none)
      else if seq.gt beginOfCurrent then
        let size := SequenceNumber32.toUint32 (seq.sub beginOfCurrent)
        let (firstPart, current) := splitItems current size e.nextItem
        return ({ e with
          list := passed ++ firstPart :: current :: rest
          nextItem := e.nextItem + 1 }, none)
      else .error .abort
    else walkList first sent numBytes seq e (passed ++ [current]) endOfCurrent rest

/-- `GetPacketFromList`, which ends with a split or a merge before it calls itself. -/
def getPacketFromList (first : SequenceNumber32) (sent : Bool) (listStartFrom : SequenceNumber32)
    (numBytes : ℕ) (seq : SequenceNumber32) : ℕ → Edit → Except TxFault (Edit × ℕ)
  | 0, _ => .error .endless
  | fuel + 1, e => do
    match ← walkList first sent numBytes seq e [] listStartFrom e.list with
    | (e, some item) => return (e, item)
    | (e, none) => getPacketFromList first sent listStartFrom numBytes seq fuel e

/-- More calls of `GetPacketFromList` than it needs. -/
def fuel (list : List TcpTxItem) : ℕ := list.length + 2

/-! ### CopyFromSequence -/

def getNewSegment (b : TcpTxBuffer) (numBytes : ℕ) : Except TxFault (TcpTxBuffer × TcpTxItem) := do
  let startOfAppList := b.sentEnd
  let (e, address) ← getPacketFromList b.m_firstByteSeq false startOfAppList numBytes startOfAppList
    (fuel b.m_appList) { list := b.m_appList, retrans := b.m_retrans, nextItem := b.nextItem }
  match e.list.find? fun item => item.address = address with
  | none => .error .assertion
  | some item =>
    let item := { item with m_startSeq := startOfAppList }
    return ({ b with
      m_appList := e.list.eraseP fun item => item.address = address
      m_sentList := b.m_sentList ++ [item]
      m_sentSize := addTo b.m_sentSize item.size
      m_retrans := e.retrans
      nextItem := e.nextItem }, item)

/-- The loop of `GetTransmittedSegment`: the bytes that are asked for end with the item, or with the
next one where the two may be merged. -/
def mergeLimit (numBytes : ℕ) (seq : SequenceNumber32) : List TcpTxItem → ℕ
  | [] => numBytes
  | item :: rest =>
    if item.m_startSeq = seq then
      match rest with
      | [] => min numBytes item.size
      | next :: _ =>
        if !next.m_sacked ∧ item.m_lost = next.m_lost then min numBytes (item.size + next.size)
        else min numBytes item.size
    else mergeLimit numBytes seq rest

/-- The flag `m_retrans` of an item. -/
def setRetrans (address : ℕ) (list : List TcpTxItem) : List TcpTxItem :=
  list.map fun item => if item.address = address then { item with m_retrans := true } else item

def getTransmittedSegment (b : TcpTxBuffer) (numBytes : ℕ) (seq : SequenceNumber32) :
    Except TxFault (TcpTxBuffer × TcpTxItem) := do
  check (seq.ge b.m_firstByteSeq = true)
  check (numBytes ≤ b.m_sentSize)
  check (1 ≤ b.m_sentList.length)
  let s := mergeLimit numBytes seq b.m_sentList
  let (e, address) ← getPacketFromList b.m_firstByteSeq true b.m_firstByteSeq s seq
    (fuel b.m_sentList) { list := b.m_sentList, retrans := b.m_retrans, nextItem := b.nextItem }
  match e.list.find? fun item => item.address = address with
  | none => .error .nullPointer
  | some item =>
    let b := { b with m_sentList := e.list, m_retrans := e.retrans, nextItem := e.nextItem }
    if item.m_retrans then return (b, item)
    else
      return ({ b with
        m_sentList := setRetrans address e.list
        m_retrans := addTo e.retrans item.size }, { item with m_retrans := true })

/-- `CopyFromSequence`. The first argument bounds the depth of its recursion. -/
def copyLoop : ℕ → TcpTxBuffer → ℕ → SequenceNumber32 →
    Except TxFault (TcpTxBuffer × Option TcpTxItem)
  | 0, _, _, _ => .error .endless
  | depth + 1, b, numBytes, seq => do
    if b.m_firstByteSeq.gt seq then .error .abort
    else
      let s := min numBytes (b.sizeFromSequence seq)
      if s = 0 then return (b, none)
      else if b.sentEnd.ge (plus seq s) then do
        let (b, item) ← b.getTransmittedSegment s seq
        check (item.m_sacked = false)
        check (item.m_startSeq.ge b.m_firstByteSeq = true)
        return (b, some item)
      else if b.sentEnd.le seq then
        if b.sentEnd = seq then do
          let (b, item) ← b.getNewSegment s
          check (item.m_retrans = false)
          check (item.m_startSeq.ge b.m_firstByteSeq = true)
          return (b, some item)
        else .error .abort
      else
        -- the values are compared, not the sequence numbers
        let sentEnd := addTo b.m_firstByteSeq.m_value b.m_sentSize
        if sentEnd > seq.m_value ∧ sentEnd < addTo seq.m_value s then
          copyLoop depth b (takeFrom sentEnd seq.m_value) seq
        else .error .nullPointer

def copyFromSequence (b : TcpTxBuffer) (numBytes : ℕ) (seq : SequenceNumber32) :
    Except TxFault (TcpTxBuffer × Option TcpTxItem) := copyLoop 2 b numBytes seq

/-! ### The scoreboard -/

def removeFromCounts (b : TcpTxBuffer) (item : TcpTxItem) (size : ℕ) :
    Except TxFault TcpTxBuffer := do
  check (item.m_sacked = true → size ≤ b.m_sackedOut)
  check (item.m_retrans = true → size ≤ b.m_retrans)
  check (item.m_lost = true → size ≤ b.m_lostOut)
  return { b with
    m_sackedOut := if item.m_sacked then takeFrom b.m_sackedOut size else b.m_sackedOut
    m_retrans := if item.m_retrans then takeFrom b.m_retrans size else b.m_retrans
    m_lostOut := if item.m_lost then takeFrom b.m_lostOut size else b.m_lostOut }

def markHeadAsLost (b : TcpTxBuffer) : TcpTxBuffer :=
  match b.m_sentList with
  | [] => b
  | head :: rest =>
    { b with
      m_sentList := { head with m_sacked := false, m_retrans := false, m_lost := true } :: rest
      m_sackedOut := if head.m_sacked then takeFrom b.m_sackedOut head.size else b.m_sackedOut
      m_retrans := if head.m_retrans then takeFrom b.m_retrans head.size else b.m_retrans
      m_lostOut := if head.m_lost then b.m_lostOut else addTo b.m_lostOut head.size }

/-- The first item of the list that is not sacked, and the items before and after it. -/
def splitSacked : List TcpTxItem → Option (List TcpTxItem × TcpTxItem × List TcpTxItem)
  | [] => none
  | item :: rest =>
    if item.m_sacked then (splitSacked rest).map fun (before, x, after) =>
    (item :: before, x, after)
    else some ([], item, rest)

def addRenoSack (b : TcpTxBuffer) : Except TxFault TcpTxBuffer := do
  check (if b.m_sackEnabled then b.m_sentList.length > 1 else b.m_sentList.length > 0)
  match b.m_sentList with
  | [] => .error .endIterator
  | head :: rest =>
    match splitSacked rest with
    | none => return b
    | some (before, item, after) =>
      return { b with
        m_sentList := head :: before ++ { item with m_sacked := true } :: after
        m_sackedOut := addTo b.m_sackedOut item.size
        m_highestSack := (some item.address, item.m_startSeq) }

/-- Data goes from the application list to an empty sent list, to be deleted there. -/
def moveToSentList (b : TcpTxBuffer) (offset : ℕ) : Except TxFault TcpTxBuffer :=
  if b.m_sentList = [] then do
    match ← b.copyFromSequence offset b.m_firstByteSeq with
    | (_, none) => .error .nullPointer
    | (b, some _) => return b
  else return b

/-- The loop of `DiscardUpTo`, with the bytes that are still to be removed. -/
def discardLoop : ℕ → TcpTxBuffer → ℕ → Except TxFault TcpTxBuffer
  | 0, _, _ => .error .endless
  | fuel + 1, b, offset =>
    if 0 < b.m_size ∧ 0 < offset then do
      let b ← b.moveToSentList offset
      match b.m_sentList with
      | [] => .error .assertion
      | item :: rest => do
        check (item.m_startSeq = b.m_firstByteSeq)
        if item.size ≤ offset then
          let b := { b with
            m_size := takeFrom b.m_size item.size
            m_sentSize := takeFrom b.m_sentSize item.size
            m_firstByteSeq := plus b.m_firstByteSeq item.size }
          let b ← b.removeFromCounts item item.size
          discardLoop fuel { b with m_sentList := rest } (offset - item.size)
        else
          let part := { item with
            m_packet := item.m_packet.drop offset
            m_startSeq := plus item.m_startSeq offset }
          let b := { b with
            m_sentList := part :: rest
            m_size := takeFrom b.m_size offset
            m_sentSize := takeFrom b.m_sentSize offset
            m_firstByteSeq := plus b.m_firstByteSeq offset }
          b.removeFromCounts part offset
    else return b

/-- The part of `DiscardUpTo` after the loop that is about the head of the list: it cannot be
sacked. -/
def repairHead (b : TcpTxBuffer) : Except TxFault TcpTxBuffer :=
  match b.m_sentList with
  | [] => return b
  | head :: rest =>
    if head.m_sacked then do
      check (head.m_lost = false)
      let b ← addRenoSack { b with
        m_sentList := { head with m_sacked := false } :: rest
        m_sackedOut := takeFrom b.m_sackedOut head.size }
      return b.markHeadAsLost
    else return b

/-- `m_sentList.begin ()`. -/
def sentHead (b : TcpTxBuffer) : Except TxFault TcpTxItem :=
  match b.m_sentList with
  | [] => .error .endIterator
  | head :: _ => return head

def discardUpTo (b : TcpTxBuffer) (seq : SequenceNumber32) : Except TxFault TcpTxBuffer := do
  if b.m_firstByteSeq.ge seq then return b
  else
    let offset := SequenceNumber32.toUint32 (seq.sub b.m_firstByteSeq)
    let b ← discardLoop (b.m_sentList.length + b.m_appList.length + 3) b offset
    let b := if b.m_size = 0 then { b with m_firstByteSeq := seq } else b
    let b ← b.repairHead
    check (∀ head ∈ b.m_sentList.head?, head.m_startSeq = seq)
    let b :=
      if b.m_highestSack.2.le b.m_firstByteSeq then { b with m_highestSack := (none, ⟨0⟩) } else b
    check (b.m_firstByteSeq.ge seq = true)
    check (addTo b.m_sackedOut b.m_lostOut ≤ b.m_sentSize)
    return b

/-- What a block of a SACK option may change beside the flags of the items. -/
structure Marks where
  highestSack : Option ℕ × SequenceNumber32
  lostOut : ℕ
  sackedOut : ℕ
  bytesSacked : ℕ := 0
deriving DecidableEq, Repr

/-- An item inside of a block of the option is sacked. -/
def sackItem (beginOfCurrent : SequenceNumber32) (item : TcpTxItem) (m : Marks) :
    Except TxFault (TcpTxItem × Marks) :=
  if item.m_sacked then do
    check (item.m_lost = false)
    return (item, m)
  else
    return ({ item with m_sacked := true, m_lost := false },
      { highestSack :=
          if m.highestSack.1 = none ∨ m.highestSack.2.le (plus beginOfCurrent item.size) = true then
            (some item.address, beginOfCurrent)
          else m.highestSack
        lostOut := if item.m_lost then takeFrom m.lostOut item.size else m.lostOut
        sackedOut := addTo m.sackedOut item.size
        bytesSacked := addTo m.bytesSacked item.size })

/-- The loop of `Update` over the sent list, for one block of the option. -/
def sackBlock (block : SequenceNumber32 × SequenceNumber32) :
    SequenceNumber32 → List TcpTxItem → Marks → Except TxFault (List TcpTxItem × Marks)
  | _, [], m => return ([], m)
  | beginOfCurrent, item :: rest, m => do
    let endOfCurrent := plus beginOfCurrent item.size
    if beginOfCurrent.ge block.1 = true ∧ endOfCurrent.le block.2 = true then
      let (item, m) ← sackItem beginOfCurrent item m
      let (rest, m) ← sackBlock block endOfCurrent rest m
      return (item :: rest, m)
    else if endOfCurrent.gt block.2 then return (item :: rest, m)
    else
      let (rest, m) ← sackBlock block endOfCurrent rest m
      return (item :: rest, m)

/-- The loop of `Update` over the option. The result says too whether the loop came to its end: a
block above the sent list makes `Update` return. -/
def sackBlocks (first sentEnd : SequenceNumber32) :
    List (SequenceNumber32 × SequenceNumber32) → List TcpTxItem → Marks →
    Except TxFault (List TcpTxItem × Marks × Bool)
  | [], list, m => return (list, m, true)
  | block :: blocks, list, m => do
    if sentEnd.lt block.1 then return (list, m, false)
    else
      let (list, m) ← sackBlock block first list m
      sackBlocks first sentEnd blocks list m

/-- The loop of `UpdateLostCount`, which goes from the last item of the list to the first one: the
number of sacked items, the list, and the bytes that are newly lost. -/
def markLost (dupAckThresh : ℕ) : List TcpTxItem → ℕ × List TcpTxItem × ℕ
  | [] => (0, [], 0)
  | item :: rest =>
    let (above, rest, lost) := markLost dupAckThresh rest
    let sacked := if item.m_sacked then above + 1 else above
    if dupAckThresh ≤ sacked ∧ item.m_sacked = false ∧ item.m_lost = false then
      (sacked, { item with m_lost := true } :: rest, lost + item.size)
    else (sacked, item :: rest, lost)

/-- The items up to the one at the address, and those after it. -/
def splitAt (address : ℕ) : List TcpTxItem → Option (List TcpTxItem × List TcpTxItem)
  | [] => none
  | item :: rest =>
    if item.address = address then some ([item], rest)
    else (splitAt address rest).map fun (upTo, after) => (item :: upTo, after)

def updateLostCount (b : TcpTxBuffer) : Except TxFault TcpTxBuffer := do
  match b.m_highestSack.1.bind fun address => splitAt address b.m_sentList with
  | none => .error .endIterator
  | some ([], _) => .error .endIterator
  | some (head :: upTo, after) =>
    -- the head is not part of the loop
    let (sacked, upTo, lost) := markLost b.m_dupAckThresh upTo
    let isNew := b.m_dupAckThresh ≤ sacked ∧ head.m_lost = false
    return { b with
      m_sentList := (if isNew then { head with m_lost := true } else head) :: upTo ++ after
      m_lostOut := addTo b.m_lostOut (if isNew then lost + head.size else lost) }

/-- `Update`, and the bytes that it returns. -/
def update (b : TcpTxBuffer) (list : List (SequenceNumber32 × SequenceNumber32)) :
    Except TxFault (TcpTxBuffer × ℕ) := do
  let (items, m, ended) ← sackBlocks b.m_firstByteSeq b.sentEnd list b.m_sentList
    { highestSack := b.m_highestSack, lostOut := b.m_lostOut, sackedOut := b.m_sackedOut }
  let b := { b with
    m_sentList := items
    m_highestSack := m.highestSack
    m_lostOut := m.lostOut
    m_sackedOut := m.sackedOut }
  if ended then
    let b ← if 0 < m.bytesSacked then b.updateLostCount else pure b
    let head ← b.sentHead
    check (head.m_sacked = false)
    check (addTo b.m_sackedOut b.m_lostOut ≤ b.m_sentSize)
    return (b, m.bytesSacked)
  else return (b, m.bytesSacked)

def setSentListLost (b : TcpTxBuffer) (resetSack : Bool) : Except TxFault TcpTxBuffer := do
  let lost := fun item : TcpTxItem => resetSack || item.m_lost || !item.m_sacked
  let b := { b with
    m_retrans := 0
    m_sackedOut := if resetSack then 0 else b.m_sackedOut
    m_lostOut :=
      if resetSack then b.m_sentSize
      else (b.m_sentList.filter lost).foldl (fun out item => addTo out item.size) 0
    m_highestSack := if resetSack then (none, ⟨0⟩) else b.m_highestSack
    m_sentList := b.m_sentList.map fun item => { item with
      m_sacked := !resetSack && item.m_sacked
      m_lost := lost item
      m_retrans := false } }
  check (addTo b.m_sackedOut b.m_lostOut ≤ b.m_sentSize)
  return b

def resetRenoSack (b : TcpTxBuffer) : TcpTxBuffer :=
  { b with
    m_sackedOut := 0
    m_sentList := b.m_sentList.map fun item => { item with m_sacked := false }
    m_highestSack := (none, ⟨0⟩) }

def resetSentList (b : TcpTxBuffer) : TcpTxBuffer :=
  { b with
    m_appList := (b.m_sentList.map fun item =>
      { item with m_retrans := false, m_sacked := false, m_lost := false }) ++ b.m_appList
    m_sentList := []
    m_sentSize := 0
    m_lostOut := 0
    m_retrans := 0
    m_sackedOut := 0
    m_highestSack := (none, ⟨0⟩) }

def resetLastSegmentSent (b : TcpTxBuffer) : TcpTxBuffer :=
  match b.m_sentList.getLast? with
  | none => b
  | some item =>
    { b with
      m_sentList := b.m_sentList.dropLast
      m_sentSize := takeFrom b.m_sentSize item.size
      m_retrans := if item.m_retrans then takeFrom b.m_retrans item.size else b.m_retrans
      m_appList := item :: b.m_appList }

def deleteRetransmittedFlagFromHead (b : TcpTxBuffer) : TcpTxBuffer :=
  if b.m_sentSize = 0 then b
  else
    match b.m_sentList with
    | [] => b
    | head :: rest =>
      if head.m_retrans then
        { b with
          m_sentList := { head with m_retrans := false } :: rest
          m_retrans := takeFrom b.m_retrans head.size }
      else b

/-! ### What the socket asks -/

def bytesInFlight (b : TcpTxBuffer) : Except TxFault ℕ := do
  let leftOut := addTo b.m_sackedOut b.m_lostOut
  check (leftOut ≤ b.m_sentSize)
  return addTo (takeFrom b.m_sentSize leftOut) b.m_retrans

/-- The loop of `NextSeg`: the result of rule 1, or the sequence number that was saved for rule
3. -/
def nextSegLoop (isRecovery : Bool) : SequenceNumber32 → List TcpTxItem → Option SequenceNumber32 →
    SequenceNumber32 ⊕ Option SequenceNumber32
  | _, [], perRule3 => .inr perRule3
  | beginOfCurrent, item :: rest, perRule3 =>
    if item.m_retrans = false ∧ item.m_sacked = false ∧ item.m_lost = true then .inl beginOfCurrent
    else if item.m_retrans = false ∧ item.m_sacked = false ∧
        (perRule3.getD ⟨0⟩).m_value = 0 ∧ isRecovery = true then
      nextSegLoop isRecovery (plus beginOfCurrent item.size) rest (some beginOfCurrent)
    else nextSegLoop isRecovery (plus beginOfCurrent item.size) rest perRule3

/-- `NextSeg`: `*seq` and `*seqHigh` where it returns true. `rWnd` is what the callback
`m_rWndCallback` returns. -/
def nextSeg (b : TcpTxBuffer) (rWnd : ℕ) (isRecovery : Bool) :
    Option (SequenceNumber32 × SequenceNumber32) :=
  match nextSegLoop isRecovery b.m_firstByteSeq b.m_sentList none with
  | .inl seq => some (seq, plus seq b.m_segmentSize)
  | .inr perRule3 =>
    if 0 < b.sizeFromSequence b.sentEnd then
      if b.m_sentSize ≤ rWnd then
        some (b.sentEnd, plus b.sentEnd (min b.m_segmentSize (takeFrom rWnd b.m_sentSize)))
      else none
    else perRule3.map fun seq => (seq, plus seq b.m_segmentSize)

end TcpTxBuffer

end Ns3.Internet
