import Ktty.Relay.Room

/-!
# The relay

`handle_socket` for any number of connections, the write tasks and the eviction task, as a step
function on the shared state. A step is a stretch of one task between two points where others can run:
a section under the lock of the room map, a send on a channel, a frame read from a socket. The order of
the steps of different tasks is that of the event list.

Time is counted in milliseconds. The random bytes of a new peer's token are part of its `register`
event.
-/

set_option autoImplicit false

namespace Ktty.Relay

open Ktty.Wire

/-- A frame that the read loop gets from `ws_rx.next()`. -/
inductive Frame where
  | text (t : Text)
  | binary (d : Bytes)
  | ping (d : Bytes)
  | pong
  | close

inductive Event where
  /-- The first message: a text, or anything else (`none`). -/
  | first (c : ConnId) (t : Option Text)
  /-- The handler enters its room, with the bytes drawn for its token. -/
  | register (c : ConnId) (tokenBytes : Bytes)
  | sendAuth (c : ConnId)
  /-- The handler notifies the other peers of the join. -/
  | announce (c : ConnId)
  | frame (c : ConnId) (f : Frame)
  /-- The activity update after a pong. -/
  | activity (c : ConnId)
  | forward (c : ConnId)
  /-- The read loop sees the end of the stream, an error, or the end of the write task. -/
  | streamEnd (c : ConnId)
  | cleanup (c : ConnId)
  /-- The write task sends the next message of the channel. -/
  | deliver (c : ConnId)
  /-- The write task sends a keepalive ping. -/
  | keepalive (c : ConnId)
  /-- The write task ends, or is aborted, and drops the receiver. -/
  | writerEnds (c : ConnId)
  /-- The peer reads the next message from its socket. -/
  | receive (c : ConnId)
  /-- The eviction task. -/
  | sweep
  /-- Time passes. -/
  | elapse (d : Nat)

structure State where
  rooms : RoomMap
  conns : Conns
  now : Nat

namespace State

def start : State := { rooms := ∅, conns := fun _ => {}, now := 0 }

variable (s : State)

/-- Replace the record of a connection. -/
def setConn (c : ConnId) (conn : Conn) : State :=
  { s with conns := Function.update s.conns c conn }

def setPc (c : ConnId) (pc : Pc) : State := s.setConn c { s.conns c with pc := pc }

/-- `map.get(&room_id)` of the handler of `c`. -/
def room? (c : ConnId) : Option Room := s.rooms.lookup (s.conns c).roomId

/-- The entry that the handler of `c` finds by its peer id. -/
def ownPeer? (c : ConnId) : Option Peer :=
  (s.room? c).bind fun room => room.peers.find? fun p => p.id = (s.conns c).peerId

/-- `peer.last_activity = now` on the entry that the handler of `c` finds. -/
def updateActivity (c : ConnId) : State :=
  match s.room? c with
  | some room =>
      let room := { room with peers := touch (s.conns c).peerId s.now room.peers }
      { s with rooms := s.rooms.insert (s.conns c).roomId room }
  | none => s

end State

/-! ## The handler -/

section Handler

variable (J : SerdeJson) (s : State) (c : ConnId)

/-- The room id of a first message; `none` drops the connection. -/
def readJoin (t : Text) : Option Text :=
  if MAX_TEXT_FRAME_BYTES < byteLen t then none
  else
    match J.fromStr t with
    | some val =>
        if (val.get? "action").bind Json.asStr = some "join".toList then
          -- a missing room id reads as the empty one, which is refused:
          let roomId := ((val.get? "room_id").bind Json.asStr).getD []
          if roomId = [] then none else some roomId
        else none
    | none => none

def first (t : Option Text) : State :=
  match t.bind (readJoin J) with
  | some roomId => s.setConn c { s.conns c with pc := .joining, roomId := roomId }
  | none => s.setPc c .done

/-- The room that the handler of `c` enters, created when it does not exist. -/
def entering : Room := (s.rooms.lookup (s.conns c).roomId).getD Room.new

/-- Enter the room: drop the peers whose channel takes no ping, evict from a full room, and add the
entry. -/
def register (tokenBytes : Bytes) : State :=
  let room := entering s c
  let (peers, conns) := retainAlive (fun _ => true) room.peers s.conns
  let (peers, conns) := makeRoom c peers conns
  let room := { room with peers := peers }
  { s with
    rooms := s.rooms.insert (s.conns c).roomId (room.addPeer c s.now tokenBytes)
    conns := Function.update conns c
      { conns c with
        pc := .entered, peerId := room.nextId, authToken := Lib.Hex.encode tokenBytes
        queue := [], rxAlive := true } }

/-- The auth message on the connection's own channel. -/
def sendAuth : State :=
  -- sent by the handler's own sender, whether or not its entry is still in the room:
  { s with conns := (trySend s.conns c (.auth (s.conns c).authToken)).1 }.setPc c .announcing

/-- Forward the join message to the other peers. -/
def announce : State :=
  let s' :=
    match s.room? c with
    | some room =>
        let conns := sendAll s.conns (others room (s.conns c).peerId) (.join (s.conns c).roomId c)
        { s with conns := conns }
    | none => s
  s'.setPc c .reading

/-- Answer a ping on the connection's own channel. -/
def answerPing (d : Bytes) : State :=
  let s' :=
    match s.ownPeer? c with
    -- the channel is that of the entry found by id:
    | some peer => { s with conns := (trySend s.conns peer.tx (.pong d)).1 }
    | none => s
  s'.setPc c .ponged

/-- The token check of a text message. -/
def tokenOk (val : Json) : Bool :=
  match s.ownPeer? c with
  -- a message without a token reads as one with the empty token:
  | some peer => peer.authToken == ((val.get? "auth").bind Json.asStr).getD []
  | none => false

/-- A frame in the read loop. -/
def readFrame : Frame → State
  | .close => s.setPc c .closing
  | .ping d => answerPing s c d
  | .pong => s.updateActivity c
  -- only texts are checked:
  | .binary d => s.setPc c (.forwarding (.binary d))
  | .text t =>
      if MAX_TEXT_FRAME_BYTES < byteLen t then s
      else
        match J.fromStr t with
        -- the lock is given back here and taken again for the forwarding:
        | some val => if tokenOk s c val then s.setPc c (.forwarding (.text t)) else s
        | none => s

/-- The message that is forwarded: a text loses its auth field. -/
def forwardMsg : Payload → Payload
  | .binary d => .binary d
  | .text t =>
      match J.fromStr t with
      | some val =>
          if (val.get? "auth").isSome then .text (J.valueToString (val.remove "auth")) else .text t
      | none => .text t

/-- Update the activity and forward to the other peers. -/
def forward (p : Payload) : State :=
  let s' :=
    match s.room? c with
    | some room =>
        let conns :=
          sendAll s.conns (others room (s.conns c).peerId) (.forwarded (forwardMsg J p) c)
        { (s.updateActivity c) with conns := conns }
    | none => s
  s'.setPc c .reading

/-- Remove the entry, notify the remaining peers, and remove an empty room. -/
def cleanup : State :=
  let conn := s.conns c
  let s' :=
    match s.room? c with
    | some room =>
        -- every entry with the id goes, whichever connection it belongs to:
        let remaining := others room conn.peerId
        { s with
          rooms :=
            if remaining.isEmpty then s.rooms.erase conn.roomId
            else s.rooms.insert conn.roomId { room with peers := remaining }
          conns := sendAll s.conns remaining (.peerDisconnect conn.peerId c) }
    | none => s
  s'.setPc c .done

end Handler

/-! ## The eviction task -/

/-- Active within the last 60 seconds. -/
def youngAt (now : Nat) (p : Peer) : Bool := decide ((now - p.lastActivity) / 1000 < 60)

/-- One room of the sweep. -/
def sweepRoom (now : Nat) (acc : RoomMap × Conns) (roomId : Text) : RoomMap × Conns :=
  match acc.1.lookup roomId with
  | some room =>
      -- an entry that goes here goes without a notice:
      let (peers, conns) := retainAlive (youngAt now) room.peers acc.2
      (if peers.isEmpty then acc.1.erase roomId
        else acc.1.insert roomId { room with peers := peers }, conns)
  | none => acc

def sweep (s : State) : State :=
  let (rooms, conns) := s.rooms.keys.foldl (sweepRoom s.now) (s.rooms, s.conns)
  { s with rooms := rooms, conns := conns }

/-! ## Steps -/

/-- The write task is running. -/
def Conn.writing (conn : Conn) : Bool := conn.pc.hasWriter && conn.rxAlive

/-- The write task sends the next message of the channel. -/
def deliver (s : State) (c : ConnId) : Option State :=
  if (s.conns c).writing then
    match (s.conns c).queue with
    | m :: ms => some (s.setConn c { s.conns c with queue := ms, wire := (s.conns c).wire ++ [m] })
    | [] => none
  else none

/-- One step of the relay; `none` when the task named by the event is not at that point. -/
def step (J : SerdeJson) (s : State) : Event → Option State
  | .first c t => if (s.conns c).pc = .accepted then some (first J s c t) else none
  | .register c tokenBytes =>
      if (s.conns c).pc = .joining then some (register s c tokenBytes) else none
  | .sendAuth c => if (s.conns c).pc = .entered then some (sendAuth s c) else none
  | .announce c => if (s.conns c).pc = .announcing then some (announce s c) else none
  | .frame c f => if (s.conns c).pc = .reading then some (readFrame J s c f) else none
  | .activity c =>
      if (s.conns c).pc = .ponged then some ((s.updateActivity c).setPc c .reading) else none
  | .forward c =>
      match (s.conns c).pc with
      | .forwarding p => some (forward J s c p)
      | _ => none
  | .streamEnd c => if (s.conns c).pc = .reading then some (s.setPc c .closing) else none
  | .cleanup c => if (s.conns c).pc = .closing then some (cleanup s c) else none
  | .deliver c => deliver s c
  | .keepalive c =>
      if (s.conns c).writing then
        some (s.setConn c { s.conns c with wire := (s.conns c).wire ++ [.ping] })
      else none
  | .writerEnds c =>
      if (s.conns c).writing then some (s.setConn c { s.conns c with rxAlive := false }) else none
  | .receive c =>
      match (s.conns c).wire with
      | _ :: ms => some (s.setConn c { s.conns c with wire := ms })
      | [] => none
  | .sweep => some (sweep s)
  | .elapse d => some { s with now := s.now + d }

end Ktty.Relay
