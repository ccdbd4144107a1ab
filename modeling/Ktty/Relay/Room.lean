import Ktty.Lib.Hex
import Ktty.Wire.Messages
import Mathlib.Data.List.AList
import Mathlib.Logic.Function.Basic

/-!
# Rooms and channels

The data of the relay: the peers of a room, the connections with their bounded channels, and the
operations that `handle_socket` and the eviction task perform on them.

A connection is a number. A peer entry names the connection whose channel it holds (`Peer.tx`), so that
the entry a connection created can be told from the entry of another one with the same id. A queued
message records the connection whose handler put it there; no step reads this.
-/

set_option autoImplicit false

namespace Ktty.Relay

open Ktty.Wire

/-- `PEER_CHANNEL_CAPACITY`. -/
def PEER_CHANNEL_CAPACITY : Nat := 64

/-- `MAX_TEXT_FRAME_BYTES`. -/
def MAX_TEXT_FRAME_BYTES : Nat := 64 * 1024

/-- A connection to the relay. -/
abbrev ConnId := Nat

/-! ## Messages and connections -/

/-- A text or binary message that is forwarded as it stands. -/
inductive Payload where
  | text (t : Text)
  | binary (d : Bytes)
  deriving DecidableEq

/-- What the relay puts on the channel of a peer; `origin` is the connection whose handler did it. -/
inductive RelayMsg where
  | auth (token : Text)
  | join (roomId : Text) (origin : ConnId)
  | peerDisconnect (peerId : Nat) (origin : ConnId)
  | forwarded (p : Payload) (origin : ConnId)
  | ping
  | pong (d : Bytes)

/-- `json!({"type": "auth", "token": ..})`; the keys of a `Value` are sorted. -/
def authJson (token : Text) : Json :=
  .ofFields [("token", .str token), ("type", .str "auth".toList)]

/-- `json!({"action": "join", "room_id": ..})`, which is also the join message of a client. -/
def joinJson (roomId : Text) : Json :=
  .ofFields [("action", .str "join".toList), ("room_id", .str roomId)]

/-- `json!({"type": "peer_disconnect", "peer_id": ..})`. -/
def peerDisconnectJson (peerId : Nat) : Json :=
  .ofFields [("peer_id", .int peerId), ("type", .str "peer_disconnect".toList)]

/-- Where the handler of a connection stands. -/
inductive Pc where
  /-- Before the first message. -/
  | accepted
  /-- The join has been read, the room not yet entered. -/
  | joining
  /-- Entered; the auth message comes next. -/
  | entered
  /-- The notification of the other peers comes next. -/
  | announcing
  /-- The read loop. -/
  | reading
  /-- A ping has been answered; the activity update comes next. -/
  | ponged
  /-- A message has passed the token check; forwarding comes next. -/
  | forwarding (p : Payload)
  /-- The read loop has ended; the cleanup comes next. -/
  | closing
  | done
  deriving DecidableEq

/-- The handler of a connection holds the id of a peer entry. -/
def Pc.isRegistered : Pc → Bool
  | .accepted => false
  | .joining => false
  | .done => false
  | _ => true

/-- The connection has entered its room at some time. -/
def Pc.hasEntered : Pc → Bool
  | .accepted => false
  | .joining => false
  | _ => true

/-- The write task has been spawned. -/
def Pc.hasWriter : Pc → Bool
  | .accepted => false
  | .joining => false
  | .entered => false
  | .announcing => false
  | _ => true

/-- The handler of a connection with its channel. -/
structure Conn where
  pc : Pc := .accepted
  roomId : Text := []
  peerId : Nat := 0
  authToken : Text := []
  /-- The channel between `tx` and the write task. -/
  queue : List RelayMsg := []
  /-- The receiver of the channel has not been dropped. -/
  rxAlive : Bool := false
  /-- What the write task has sent and the peer has not yet read. -/
  wire : List RelayMsg := []

abbrev Conns := ConnId → Conn

/-- `tx.try_send(m)`: fails on a closed or full channel. -/
def trySend (conns : Conns) (c : ConnId) (m : RelayMsg) : Conns × Bool :=
  let conn := conns c
  if conn.rxAlive = true ∧ conn.queue.length < PEER_CHANNEL_CAPACITY then
    (Function.update conns c { conn with queue := conn.queue ++ [m] }, true)
  else (conns, false)

/-! ## Peers and rooms -/

structure Peer where
  id : Nat
  tx : ConnId
  lastActivity : Nat
  authToken : Text

structure Room where
  peers : List Peer
  nextId : Nat

def Room.new : Room := { peers := [], nextId := 0 }

abbrev RoomMap := AList fun _ : Text => Room

/-- `let _ = peer.tx.try_send(m)` for each peer in turn. -/
def sendAll (conns : Conns) (peers : List Peer) (m : RelayMsg) : Conns :=
  peers.foldl (fun conns p => (trySend conns p.tx m).1) conns

/-- `retain` with a ping: keep the peers that are `young` and whose channel takes a ping. -/
def retainAlive (young : Peer → Bool) : List Peer → Conns → List Peer × Conns
  | [], conns => ([], conns)
  | p :: ps, conns =>
      if young p then
        -- two entries may share a channel, so the second sees what the first has queued:
        let (conns, ok) := trySend conns p.tx .ping
        let (kept, conns) := retainAlive young ps conns
        (if ok then p :: kept else kept, conns)
      else retainAlive young ps conns

/-- The first of the peers with the least activity, and the others. -/
def takeLeastActive : List Peer → Option (Peer × List Peer)
  | [] => none
  | p :: ps =>
      match takeLeastActive ps with
      | none => some (p, [])
      | some (q, rest) =>
          -- of equals the first one, as `min_by_key` has it:
          if p.lastActivity ≤ q.lastActivity then some (p, ps) else some (q, p :: rest)

/-- `find(|p| p.id == peer_id)` and an update of its activity. -/
def touch (peerId now : Nat) : List Peer → List Peer
  | [] => []
  | p :: ps =>
      if p.id = peerId then { p with lastActivity := now } :: ps else p :: touch peerId now ps

/-- The peers that a handler forwards to: all but those with its own id. -/
def others (room : Room) (peerId : Nat) : List Peer := room.peers.filter fun p => p.id ≠ peerId

/-- Make place in a full room: evict the least active peer and tell it. -/
def makeRoom (c : ConnId) (peers : List Peer) (conns : Conns) : List Peer × Conns :=
  if 2 ≤ peers.length then
    match takeLeastActive peers with
    -- the notice is lost when the channel is full:
    | some (evicted, rest) => (rest, (trySend conns evicted.tx (.peerDisconnect evicted.id c)).1)
    | none => (peers, conns)
  else (peers, conns)

/-- `add_peer` with the bytes drawn for the token; the id counter is a `u64`. -/
def Room.addPeer (room : Room) (tx : ConnId) (now : Nat) (tokenBytes : Bytes) : Room :=
  let peer : Peer :=
    { id := room.nextId, tx := tx, lastActivity := now, authToken := Lib.Hex.encode tokenBytes }
  { peers := room.peers ++ [peer], nextId := (room.nextId + 1) % 2 ^ 64 }

end Ktty.Relay
