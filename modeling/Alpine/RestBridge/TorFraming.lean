import Alpine.Lib.Run
import Alpine.Lib.Wire
import Alpine.NetUtils.TcpTransport

/-!
# The messages of a tunnel

A message goes over a connection with four bytes of length before it. A length that is cut gives the
connection up, and a response that is sent in part stays in the stream. In every run the stream is
made of whole frames and every message is received as it was sent exactly if no length is cut, no
payload is interrupted by an error, and a response goes out whole or not at all
(`along_framed_iff`).
-/

namespace Alpine

open Lib TcpTransport

namespace TorTunnel

def MAX_MESSAGE_SIZE : Nat := 65536

/-- A message that the protocol allows. -/
structure TunnelMessage where
  json : List UInt8
  nonempty : 1 ≤ json.length
  short : json.length ≤ MAX_MESSAGE_SIZE

/-- Four bytes, the most significant first. -/
def headerBytes (payloadLen : Nat) : List UInt8 := (storeLE 4 payloadLen).reverse

def headerLength (header : List UInt8) : Nat := loadLE header.reverse

/-- What is returned, and the bytes that got into the stream. -/
def sendFramedMessage (outcomes : List SendOutcome) (json : List UInt8) : Bool × List UInt8 :=
  let payloadLen := json.length % 2 ^ 32
  if payloadLen > MAX_MESSAGE_SIZE then (false, [])
  else
    let header := send outcomes (headerBytes payloadLen)
    if header.ok = false then (false, header.bytes)
    else
      let payload := send header.outcomes (json.take payloadLen)
      (payload.ok, header.bytes ++ payload.bytes)

/-- The loop over the payload; every round that goes on reads a byte, so that as many rounds as
there are bytes are enough. -/
def readPayload : Nat → List RecvOutcome → Nat → List UInt8 → Option (List UInt8) × List UInt8
  | 0, _, _, stream => (some [], stream)
  | fuel + 1, outcomes, remaining, stream =>
    if remaining = 0 then (some [], stream)
    else
      let chunk := receive outcomes stream remaining
      match chunk.data with
      | none => (none, chunk.stream)
      | some bytes =>
        if bytes.length = 0 then (none, chunk.stream)
        else
          let rest := readPayload fuel chunk.outcomes (remaining - bytes.length) chunk.stream
          (rest.1.map (bytes ++ ·), rest.2)

/-- The message, what is left in the stream, and the size of the buffer for the payload. -/
structure TunnelReceived where
  json : Option (List UInt8)
  stream : List UInt8
  allocated : Nat

def recvFramedMessage (outcomes : List RecvOutcome) (stream : List UInt8) : TunnelReceived :=
  let header := receive outcomes stream 4
  match header.data with
  | none => ⟨none, header.stream, 0⟩
  | some bytes =>
    if bytes.length ≠ 4 then ⟨none, header.stream, 0⟩
    else
      let payloadLen := headerLength bytes
      if payloadLen = 0 ∨ payloadLen > MAX_MESSAGE_SIZE then ⟨none, header.stream, 0⟩
      else
        let payload := readPayload payloadLen header.outcomes payloadLen header.stream
        ⟨payload.1, payload.2, payloadLen⟩

/-! ## A connection -/

/-- The bytes under way, and the messages that were sent whole and are not received. -/
structure TunnelLink where
  stream : List UInt8
  undelivered : List TunnelMessage

inductive LinkCall where
  /-- `sendResponse` goes on with the connection whatever the answer is. -/
  | sendResponse (message : TunnelMessage) (outcomes : List SendOutcome)
  /-- `sendDiscoveryBeacon` gives the connection up when it fails. -/
  | sendDiscoveryBeacon (message : TunnelMessage) (outcomes : List SendOutcome)
  | receive (outcomes : List RecvOutcome)

inductive LinkEvent where
  | sent (ok : Bool)
  | received (json : List UInt8)
  | closed
  deriving DecidableEq, Repr

/-- A connection that is new, or takes the place of one that was given up. -/
def newLink : TunnelLink := ⟨[], []⟩

def linkStep (link : TunnelLink) : LinkCall → TunnelLink × List LinkEvent
  | .sendResponse message outcomes =>
    match sendFramedMessage outcomes message.json with
    | (true, bytes) => (⟨link.stream ++ bytes, link.undelivered ++ [message]⟩, [.sent true])
    | (false, bytes) => (⟨link.stream ++ bytes, link.undelivered⟩, [.sent false])
  | .sendDiscoveryBeacon message outcomes =>
    match sendFramedMessage outcomes message.json with
    | (true, bytes) => (⟨link.stream ++ bytes, link.undelivered ++ [message]⟩, [.sent true])
    | (false, _) => (newLink, [.sent false])
  | .receive outcomes =>
    match (recvFramedMessage outcomes link.stream).json with
    | some json =>
      (⟨(recvFramedMessage outcomes link.stream).stream, link.undelivered.tail⟩, [.received json])
    | none => (newLink, [.closed])

def linkMachine : Machine TunnelLink LinkCall LinkEvent := ⟨linkStep⟩

/-- The bytes of a message. -/
def frame (message : TunnelMessage) : List UInt8 := headerBytes message.json.length ++ message.json

/-- The stream is made of the frames of the messages that are to be received. -/
def Framed (link : TunnelLink) : Prop := link.stream = link.undelivered.flatMap frame

/-- The stream is made of frames after the step, and a call of `receive` gives the next message, or
none if there is none. -/
def StepFramed (_ : List LinkEvent) (link : TunnelLink) (call : LinkCall) : Prop :=
  Framed (linkStep link call).1 ∧ ∀ outcomes, call = .receive outcomes →
    (linkStep link call).2 = match link.undelivered with
      | [] => [.closed]
      | message :: _ => [.received message.json]

/-- The first answer gives the whole length. -/
def HeaderArrives : List RecvOutcome → Prop
  | [] => True
  | .arrived n :: _ => 3 ≤ n
  | .failed :: _ => False

/-- There is no error before `n` bytes have come. -/
def Arrives : List RecvOutcome → Nat → Prop
  | _, 0 => True
  | [], _ + 1 => True
  | .failed :: _, _ + 1 => False
  | .arrived k :: outcomes, n + 1 => Arrives outcomes (n - k)

/-- All bytes of a frame are taken, or the first answer is an error. -/
def SentWhole (message : TunnelMessage) (outcomes : List SendOutcome) : Prop :=
  outcomes.head? = some .failed ∨
    ((accept outcomes 4).bind fun rest => accept rest message.json.length).isSome = true

/-- A response goes out whole or not at all, and a message that is received comes without a cut in
its length and without an error in its payload. -/
def StepWhole (_ : List LinkEvent) (link : TunnelLink) : LinkCall → Prop
  | .sendResponse message outcomes => SentWhole message outcomes
  | .sendDiscoveryBeacon _ _ => True
  | .receive outcomes => ∀ message rest, link.undelivered = message :: rest →
      HeaderArrives outcomes ∧ Arrives outcomes.tail message.json.length

/-! ## Sending -/

theorem length_headerBytes (n : Nat) : (headerBytes n).length = 4 := by
  rw [headerBytes, List.length_reverse, length_storeLE]

theorem headerLength_headerBytes {n : Nat} (h : n < 2 ^ 32) : headerLength (headerBytes n) = n := by
  rw [headerLength, headerBytes, List.reverse_reverse, loadLE_storeLE_of_lt (by omega)]

theorem TunnelMessage.length_mod (message : TunnelMessage) :
    message.json.length % 2 ^ 32 = message.json.length := by
  have := message.short
  unfold MAX_MESSAGE_SIZE at this
  exact Nat.mod_eq_of_lt (by omega)

theorem sendFramedMessage_eq (outcomes : List SendOutcome) (message : TunnelMessage) :
    sendFramedMessage outcomes message.json =
      if (send outcomes (headerBytes message.json.length)).ok = false then
        (false, (send outcomes (headerBytes message.json.length)).bytes)
      else
        let payload := send (send outcomes (headerBytes message.json.length)).outcomes message.json
        (payload.ok, (send outcomes (headerBytes message.json.length)).bytes ++ payload.bytes) := by
  unfold sendFramedMessage
  dsimp only
  rw [message.length_mod, if_neg (by have := message.short; omega), List.take_length]

/-- A message is sent exactly if all bytes of its frame are taken, and then its frame is. -/
theorem sendFramedMessage_spec (outcomes : List SendOutcome) (message : TunnelMessage) :
    match (accept outcomes 4).bind fun rest => accept rest message.json.length with
    | some _ => sendFramedMessage outcomes message.json = (true, frame message)
    | none => (sendFramedMessage outcomes message.json).1 = false := by
  rw [sendFramedMessage_eq]
  have hheader := send_eq outcomes (headerBytes message.json.length)
  rw [length_headerBytes] at hheader
  cases haccept : accept outcomes 4 with
  | none =>
    rw [haccept] at hheader
    dsimp only [Option.bind_none] at hheader ⊢
    rw [if_pos hheader]
  | some rest =>
    rw [haccept] at hheader
    dsimp only [Option.bind_some] at hheader ⊢
    rw [hheader]
    dsimp only
    rw [if_neg Bool.noConfusion]
    have hpayload := send_eq rest message.json
    cases haccept' : accept rest message.json.length with
    | none =>
      rw [haccept'] at hpayload
      exact hpayload
    | some rest' =>
      rw [haccept'] at hpayload
      dsimp only at hpayload ⊢
      rw [hpayload]
      rfl

/-- No byte of a message gets into the stream only if the first answer is an error. -/
theorem sendFramedMessage_nil_iff (outcomes : List SendOutcome) (message : TunnelMessage) :
    (sendFramedMessage outcomes message.json).2 = [] ↔ outcomes.head? = some .failed := by
  obtain ⟨b, data, hheader⟩ :=
    List.exists_cons_of_length_eq_add_one (length_headerBytes message.json.length)
  rw [sendFramedMessage_eq, hheader, ← @send_bytes_eq_nil_iff outcomes b data]
  split
  · rfl
  · next hok =>
    dsimp only
    rw [List.append_eq_nil_iff]
    refine ⟨And.left, fun hnil => ?_⟩
    exfalso
    rw [send_bytes_eq_nil_iff] at hnil
    cases outcomes with
    | nil => cases hnil
    | cons outcome outcomes =>
      cases Option.some.inj hnil
      exact hok rfl

/-! ## Receiving -/

theorem readPayload_spec {fuel remaining : Nat} (outcomes : List RecvOutcome)
    (stream : List UInt8)
    (hfuel : remaining ≤ fuel) (hlen : remaining ≤ stream.length) :
    (Arrives outcomes remaining → readPayload fuel outcomes remaining stream =
      (some (stream.take remaining), stream.drop remaining)) ∧
    (¬ Arrives outcomes remaining → (readPayload fuel outcomes remaining stream).1 = none) := by
  induction fuel generalizing remaining outcomes stream with
  | zero =>
    obtain rfl : remaining = 0 := Nat.le_zero.mp hfuel
    exact ⟨fun _ => rfl, fun hnot => absurd (by cases outcomes <;> trivial) hnot⟩
  | succ fuel ih =>
    cases remaining with
    | zero =>
      exact ⟨fun _ => rfl, fun hnot => absurd (by cases outcomes <;> trivial) hnot⟩
    | succ n =>
      unfold readPayload
      rw [if_neg (Nat.succ_ne_zero n)]
      cases outcomes with
      | nil =>
        have hread : (stream.take (n + 1)).length = n + 1 := List.length_take_of_le hlen
        have hdone := (@ih 0 [] (stream.drop (n + 1))
          (Nat.zero_le _) (Nat.zero_le _)).1 trivial
        refine ⟨fun _ => ?_, fun hnot => absurd trivial hnot⟩
        dsimp only [receive]
        rw [hread, if_neg (Nat.succ_ne_zero n), Nat.sub_self, hdone]
        simp
      | cons outcome outcomes =>
        cases outcome with
        | failed => exact ⟨fun hyes => False.elim hyes, fun _ => rfl⟩
        | arrived k =>
          obtain ⟨m, hm⟩ : ∃ m, m = min (n + 1) (k + 1) := ⟨_, rfl⟩
          have hread : (stream.take m).length = m := List.length_take_of_le (by omega)
          have hleft : n + 1 - m = n - k := by omega
          have hrest := @ih (n - k) outcomes (stream.drop m)
            (by omega) (by rw [List.length_drop]; omega)
          dsimp only [receive]
          rw [← hm, hread, if_neg (by omega), hleft]
          show (Arrives outcomes (n - k) → _) ∧ (¬ Arrives outcomes (n - k) → _)
          refine ⟨fun hyes => ?_, fun hnot => ?_⟩
          · rw [hrest.1 hyes]
            dsimp only [Option.map_some]
            rw [List.drop_drop, ← List.take_add, ← hleft, Nat.add_sub_cancel' (by omega)]
          · rw [hrest.2 hnot]
            rfl

/-- Of any stream, no more is read than there is of the payload. -/
theorem readPayload_drop (fuel : Nat) (outcomes : List RecvOutcome) (remaining : Nat)
    (stream : List UInt8) :
    ∃ k ≤ remaining, (readPayload fuel outcomes remaining stream).2 = stream.drop k := by
  induction fuel generalizing outcomes remaining stream with
  | zero => exact ⟨0, Nat.zero_le _, rfl⟩
  | succ fuel ih =>
    unfold readPayload
    split
    · exact ⟨0, Nat.zero_le _, rfl⟩
    dsimp only
    split
    · next hdata =>
      cases outcomes with
      | nil => cases hdata
      | cons outcome outcomes =>
        cases outcome with
        | arrived k => cases hdata
        | failed => exact ⟨0, Nat.zero_le _, rfl⟩
    · next bytes hdata =>
      obtain ⟨m, hm, hbytes, hstream⟩ : ∃ m ≤ remaining, bytes = stream.take m ∧
          (receive outcomes stream remaining).stream = stream.drop m := by
        cases outcomes with
        | nil => exact ⟨remaining, Nat.le_refl _, (Option.some.inj hdata).symm, rfl⟩
        | cons outcome outcomes =>
          cases outcome with
          | arrived k => exact ⟨_, Nat.min_le_left _ _, (Option.some.inj hdata).symm, rfl⟩
          | failed => cases hdata
      split
      · exact ⟨m, hm, hstream⟩
      · obtain ⟨k, hk, hrest⟩ := ih (receive outcomes stream remaining).outcomes
          (remaining - bytes.length) (receive outcomes stream remaining).stream
        dsimp only
        rw [hrest, hstream, List.drop_drop]
        by_cases hlong : m ≤ stream.length
        · rw [hbytes, List.length_take_of_le hlong] at hk
          exact ⟨m + k, by omega, rfl⟩
        · refine ⟨m, hm, ?_⟩
          rw [List.drop_eq_nil_of_le (by omega), List.drop_eq_nil_of_le (by omega)]

/-- Of any stream, at most the largest frame is read, into a buffer for the largest payload. -/
theorem recvFramedMessage_bounded (outcomes : List RecvOutcome) (stream : List UInt8) :
    (recvFramedMessage outcomes stream).allocated ≤ MAX_MESSAGE_SIZE ∧
      ∃ k ≤ 4 + MAX_MESSAGE_SIZE,
        (recvFramedMessage outcomes stream).stream = stream.drop k := by
  obtain ⟨m, hm, hheader⟩ : ∃ m ≤ 4, (receive outcomes stream 4).stream = stream.drop m := by
    cases outcomes with
    | nil => exact ⟨4, Nat.le_refl _, rfl⟩
    | cons outcome outcomes =>
      cases outcome with
      | arrived k => exact ⟨_, Nat.min_le_left _ _, rfl⟩
      | failed => exact ⟨0, Nat.zero_le _, rfl⟩
  have hstop : ∃ k ≤ 4 + MAX_MESSAGE_SIZE, (receive outcomes stream 4).stream = stream.drop k :=
    ⟨m, by omega, hheader⟩
  unfold recvFramedMessage
  dsimp only
  split
  · exact ⟨Nat.zero_le _, hstop⟩
  · next bytes hdata =>
    split
    · exact ⟨Nat.zero_le _, hstop⟩
    split
    · exact ⟨Nat.zero_le _, hstop⟩
    · next hvalid =>
      have hmax : headerLength bytes ≤ MAX_MESSAGE_SIZE := Nat.le_of_not_lt (not_or.mp hvalid).2
      obtain ⟨k, hk, hpayload⟩ := readPayload_drop (headerLength bytes)
        (receive outcomes stream 4).outcomes (headerLength bytes) (receive outcomes stream 4).stream
      refine ⟨hmax, m + k, by omega, ?_⟩
      dsimp only
      rw [hpayload, hheader, List.drop_drop]

/-- Nothing is received from an empty stream. -/
theorem recvFramedMessage_nil (outcomes : List RecvOutcome) :
    (recvFramedMessage outcomes []).json = none := by
  cases outcomes with
  | nil => rfl
  | cons outcome outcomes =>
    cases outcome with
    | failed => rfl
    | arrived k =>
      unfold recvFramedMessage
      dsimp only [receive]
      rw [List.take_nil, if_pos (by decide)]

/-- A length that comes whole. -/
theorem receive_header {outcomes : List RecvOutcome} {header : List UInt8}
    (hlen : header.length = 4) (h : HeaderArrives outcomes) (rest : List UInt8) :
    receive outcomes (header ++ rest) 4 = ⟨some header, rest, outcomes.tail⟩ := by
  cases outcomes with
  | nil =>
    dsimp only [receive, List.tail_nil]
    rw [List.take_left' hlen, List.drop_left' hlen]
  | cons outcome outcomes =>
    cases outcome with
    | failed => exact False.elim h
    | arrived k =>
      have hmin : min 4 (k + 1) = 4 := by
        have : 3 ≤ k := h
        omega
      dsimp only [receive, List.tail_cons]
      rw [hmin, List.take_left' hlen, List.drop_left' hlen]

/-- A length that does not come whole gives the connection up. -/
theorem recvFramedMessage_cut {outcomes : List RecvOutcome} (h : ¬ HeaderArrives outcomes)
    (stream : List UInt8) : (recvFramedMessage outcomes stream).json = none := by
  cases outcomes with
  | nil => exact absurd trivial h
  | cons outcome outcomes =>
    cases outcome with
    | failed => rfl
    | arrived k =>
      have hk : ¬ 3 ≤ k := h
      unfold recvFramedMessage
      dsimp only [receive]
      rw [if_pos]
      rw [List.length_take]
      omega

/-- A frame at the front of the stream is received exactly if it comes without a cut in its length
and without an error in its payload. -/
theorem recvFramedMessage_frame (outcomes : List RecvOutcome) (message : TunnelMessage)
    (rest : List UInt8) :
    (HeaderArrives outcomes ∧ Arrives outcomes.tail message.json.length →
      (recvFramedMessage outcomes (frame message ++ rest)).json = some message.json ∧
      (recvFramedMessage outcomes (frame message ++ rest)).stream = rest) ∧
    (¬ (HeaderArrives outcomes ∧ Arrives outcomes.tail message.json.length) →
      (recvFramedMessage outcomes (frame message ++ rest)).json = none) := by
  by_cases hheader : HeaderArrives outcomes
  · have hread := receive_header (length_headerBytes message.json.length) hheader
      (message.json ++ rest)
    have hlength := headerLength_headerBytes
      (n := message.json.length) (by have := message.short; unfold MAX_MESSAGE_SIZE at this; omega)
    have hvalid : ¬ (message.json.length = 0 ∨ message.json.length > MAX_MESSAGE_SIZE) := by
      have := message.nonempty
      have := message.short
      omega
    obtain ⟨hyes, hno⟩ := readPayload_spec outcomes.tail
      (message.json ++ rest) (Nat.le_refl message.json.length)
      (by rw [List.length_append]; omega)
    unfold recvFramedMessage
    rw [frame, List.append_assoc, hread]
    dsimp only
    rw [if_neg (not_not.mpr (length_headerBytes _)), hlength, if_neg hvalid]
    constructor
    · rintro ⟨-, harrives⟩
      rw [hyes harrives, List.take_left, List.drop_left]
      exact ⟨rfl, rfl⟩
    · intro hnot
      exact hno fun harrives => hnot ⟨hheader, harrives⟩
  · exact ⟨fun h => absurd h.1 hheader, fun _ => recvFramedMessage_cut hheader _⟩

/-! ## Runs -/

variable {link : TunnelLink} {history : List LinkEvent}

theorem framed_newLink : Framed newLink := rfl

theorem framed_sent (h : Framed link) (message : TunnelMessage) :
    Framed ⟨link.stream ++ frame message, link.undelivered ++ [message]⟩ := by
  unfold Framed at h ⊢
  rw [h, List.flatMap_append]
  simp

/-- A response keeps the stream framed exactly if it goes out whole or not at all. -/
theorem sendResponse_framed_iff (h : Framed link) (message : TunnelMessage)
    (outcomes : List SendOutcome) :
    Framed (linkStep link (.sendResponse message outcomes)).1 ↔ SentWhole message outcomes := by
  have hspec := sendFramedMessage_spec outcomes message
  have hnil := sendFramedMessage_nil_iff outcomes message
  unfold linkStep SentWhole
  cases hrest : (accept outcomes 4).bind fun rest => accept rest message.json.length with
  | some rest =>
    rw [hrest] at hspec
    dsimp only at hspec ⊢
    rw [hspec]
    exact ⟨fun _ => .inr rfl, fun _ => framed_sent h message⟩
  | none =>
    rw [hrest] at hspec
    dsimp only at hspec
    obtain ⟨bytes, hbytes⟩ : ∃ bytes, sendFramedMessage outcomes message.json = (false, bytes) :=
      ⟨_, Prod.ext hspec rfl⟩
    dsimp only
    rw [hbytes] at hnil ⊢
    rw [← hnil]
    unfold Framed at h ⊢
    dsimp only
    rw [← h, List.append_right_eq_self]
    exact ⟨.inl, fun hor => hor.resolve_right Bool.noConfusion⟩

theorem stepFramed_iff (h : Framed link) (call : LinkCall) :
    StepFramed history link call ↔ StepWhole history link call := by
  cases call with
  | sendResponse message outcomes =>
    unfold StepFramed
    rw [sendResponse_framed_iff h]
    exact ⟨And.left, fun hwhole => ⟨hwhole, fun _ heq => (by cases heq)⟩⟩
  | sendDiscoveryBeacon message outcomes =>
    refine ⟨fun _ => trivial, fun _ => ⟨?_, fun _ heq => (by cases heq)⟩⟩
    have hspec := sendFramedMessage_spec outcomes message
    unfold linkStep
    cases hrest : (accept outcomes 4).bind fun rest => accept rest message.json.length with
    | some rest =>
      rw [hrest] at hspec
      dsimp only at hspec ⊢
      rw [hspec]
      exact framed_sent h message
    | none =>
      rw [hrest] at hspec
      dsimp only at hspec
      obtain ⟨bytes, hbytes⟩ : ∃ bytes, sendFramedMessage outcomes message.json = (false, bytes) :=
        ⟨_, Prod.ext hspec rfl⟩
      dsimp only
      rw [hbytes]
      exact framed_newLink
  | receive outcomes =>
    unfold StepFramed StepWhole
    cases hqueue : link.undelivered with
    | nil =>
      have hstream : link.stream = [] := by
        have h : link.stream = _ := h
        rw [h, hqueue]
        rfl
      have hstep : linkStep link (.receive outcomes) = (newLink, [.closed]) := by
        unfold linkStep
        dsimp only
        rw [hstream, recvFramedMessage_nil]
      rw [hstep]
      exact ⟨fun _ message rest heq => (by cases heq),
        fun _ => ⟨framed_newLink, fun _ _ => rfl⟩⟩
    | cons message queue =>
      have hstream : link.stream = frame message ++ queue.flatMap frame := by
        have h : link.stream = _ := h
        rw [h, hqueue]
        rfl
      obtain ⟨hyes, hno⟩ := recvFramedMessage_frame outcomes message (queue.flatMap frame)
      by_cases hwhole : HeaderArrives outcomes ∧ Arrives outcomes.tail message.json.length
      · obtain ⟨hjson, hrest⟩ := hyes hwhole
        have hstep : linkStep link (.receive outcomes) =
            (⟨queue.flatMap frame, queue⟩, [.received message.json]) := by
          unfold linkStep
          dsimp only
          rw [hstream, hjson, hrest, hqueue]
          rfl
        rw [hstep]
        refine ⟨fun _ m rest heq => ?_, fun _ => ⟨rfl, fun _ _ => rfl⟩⟩
        rw [← (List.cons.inj heq).1]
        exact hwhole
      · have hstep : linkStep link (.receive outcomes) = (newLink, [.closed]) := by
          unfold linkStep
          dsimp only
          rw [hstream, hno hwhole]
        rw [hstep]
        refine ⟨fun hframed => ?_, fun h => absurd (h message queue rfl) hwhole⟩
        cases hframed.2 outcomes rfl

/-- On a connection, the stream is always made of whole frames and the messages are received in
order exactly if each step is whole; and of no stream is more read or stored than the maximum. -/
theorem along_framed_iff (calls : List LinkCall) :
    (linkMachine.Along StepFramed [] newLink calls ↔
      linkMachine.Along StepWhole [] newLink calls) ∧
    ∀ (outcomes : List RecvOutcome) (stream : List UInt8),
      (recvFramedMessage outcomes stream).allocated ≤ MAX_MESSAGE_SIZE ∧
        ∃ k ≤ 4 + MAX_MESSAGE_SIZE,
          (recvFramedMessage outcomes stream).stream = stream.drop k :=
  ⟨Machine.along_congr (I := fun _ link => Framed link)
    (fun _ _ call h hwhole => ((stepFramed_iff h call).mpr hwhole).1)
    (fun _ _ call h => stepFramed_iff h call) framed_newLink, recvFramedMessage_bounded⟩

/-- A length of which two bytes come first. -/
theorem cutHeader_not_framed :
    ¬ ∀ calls : List LinkCall, linkMachine.Along StepFramed [] newLink calls := by
  intro h
  have hstep := (h [.sendResponse ⟨[7], by decide, by decide⟩ [], .receive [.arrived 1]]).2.1.2
    [.arrived 1] rfl
  exact absurd hstep (by decide +kernel)

end TorTunnel

end Alpine
