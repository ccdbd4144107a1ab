import Ktty.Relay.Socket

/-!
# What one step of the relay can do

Two relations describe the effect of the operations. `Posted A` says that connections change only by
messages added to their channels, each of which `A` allows. `Shrunk` says that rooms only lose entries.
Every step but entering a room is `Quiet`: rooms shrink, the running handlers keep their room and peer
id, and a handler that ends leaves no entry under its id (`step_quiet`). `register_eq` describes the
remaining step.
-/

set_option autoImplicit false

namespace Ktty.Relay

open Ktty.Wire

/-! ## Sending -/

/-- The connections differ only by messages added to channels, all of them allowed by `A`. -/
def Posted (A : ConnId → RelayMsg → Prop) (conns conns' : Conns) : Prop :=
  ∀ a, ∃ added, conns' a = { conns a with queue := (conns a).queue ++ added } ∧ ∀ m ∈ added, A a m

namespace Posted

variable {A B : ConnId → RelayMsg → Prop} {conns conns' conns'' : Conns}

theorem refl (A : ConnId → RelayMsg → Prop) (conns : Conns) : Posted A conns conns := by
  intro a
  exact ⟨[], by simp, by simp⟩

theorem trans (h : Posted A conns conns') (k : Posted A conns' conns'') : Posted A conns conns'' := by
  intro a
  obtain ⟨added, heq, hall⟩ := h a
  obtain ⟨added', heq', hall'⟩ := k a
  -- the messages of the second change stand behind those of the first:
  refine ⟨added ++ added', ?_, ?_⟩
  · rw [heq', heq]
    simp
  · intro m hm
    rcases List.mem_append.1 hm with hm | hm
    · exact hall m hm
    · exact hall' m hm

theorem mono (h : Posted A conns conns') (hAB : ∀ a m, A a m → B a m) : Posted B conns conns' := by
  intro a
  obtain ⟨added, heq, hall⟩ := h a
  exact ⟨added, heq, fun m hm => hAB a m (hall m hm)⟩

theorem pc (h : Posted A conns conns') (a : ConnId) : (conns' a).pc = (conns a).pc := by
  obtain ⟨added, heq, -⟩ := h a
  rw [heq]

theorem authToken (h : Posted A conns conns') (a : ConnId) :
    (conns' a).authToken = (conns a).authToken := by
  obtain ⟨added, heq, -⟩ := h a
  rw [heq]

theorem roomId (h : Posted A conns conns') (a : ConnId) : (conns' a).roomId = (conns a).roomId := by
  obtain ⟨added, heq, -⟩ := h a
  rw [heq]

theorem peerId (h : Posted A conns conns') (a : ConnId) : (conns' a).peerId = (conns a).peerId := by
  obtain ⟨added, heq, -⟩ := h a
  rw [heq]

end Posted

theorem trySend_posted (conns : Conns) (c : ConnId) (m : RelayMsg) :
    Posted (fun a x => a = c ∧ x = m) conns (trySend conns c m).1 := by
  rw [trySend]
  split
  · intro a
    by_cases ha : a = c
    · subst ha
      exact ⟨[m], by simp, by simp⟩
    · exact ⟨[], by simp [Function.update_of_ne ha], by simp⟩
  · exact Posted.refl _ _

theorem sendAll_posted (conns : Conns) (peers : List Peer) (m : RelayMsg) :
    Posted (fun a x => x = m ∧ ∃ p ∈ peers, p.tx = a) conns (sendAll conns peers m) := by
  induction peers generalizing conns with
  | nil => exact Posted.refl _ _
  | cons p ps ih =>
      -- the first peer is one of the list:
      have hfirst : Posted (fun a x => x = m ∧ ∃ q ∈ p :: ps, q.tx = a) conns
          (trySend conns p.tx m).1 := by
        apply (trySend_posted conns p.tx m).mono
        rintro a x ⟨rfl, rfl⟩
        exact ⟨rfl, p, List.mem_cons_self .., rfl⟩
      apply hfirst.trans
      apply (ih _).mono
      rintro a x ⟨rfl, q, hq, rfl⟩
      exact ⟨rfl, q, List.mem_cons_of_mem _ hq, rfl⟩

/-! ## Evicting -/

theorem retainAlive_sublist (young : Peer → Bool) (peers : List Peer) (conns : Conns) :
    (retainAlive young peers conns).1.Sublist peers := by
  induction peers generalizing conns with
  | nil => exact List.Sublist.refl _
  | cons p ps ih =>
      rw [retainAlive]
      dsimp only
      split
      · -- a young peer stays if its channel takes the ping
        cases (trySend conns p.tx .ping).2 with
        | true => exact (ih _).cons_cons p
        | false => exact (ih _).cons p
      · exact (ih _).cons p

theorem retainAlive_posted (young : Peer → Bool) (peers : List Peer) (conns : Conns) :
    Posted (fun _ x => x = .ping) conns (retainAlive young peers conns).2 := by
  induction peers generalizing conns with
  | nil => exact Posted.refl _ _
  | cons p ps ih =>
      rw [retainAlive]
      dsimp only
      split
      -- the ping of this peer, then those of the others:
      · apply Posted.trans _ (ih _)
        exact (trySend_posted conns p.tx .ping).mono fun _ _ h => h.2
      · exact ih _

theorem takeLeastActive_sublist {peers rest : List Peer} {p : Peer}
    (h : takeLeastActive peers = some (p, rest)) :
    rest.Sublist peers ∧ rest.length + 1 = peers.length ∧ p ∈ peers := by
  induction peers generalizing p rest with
  | nil => cases h
  | cons q ps ih =>
      rw [takeLeastActive] at h
      cases hps : takeLeastActive ps with
      | none =>
          rw [hps] at h
          cases h
          -- nobody is found only among no peers
          cases ps with
          | nil => simp
          | cons r rs =>
              rw [takeLeastActive] at hps
              split at hps
              · cases hps
              · split at hps <;> cases hps
      | some found =>
          obtain ⟨r, rest'⟩ := found
          rw [hps] at h
          dsimp only at h
          obtain ⟨hsub, hlen, hmem⟩ := ih hps
          split at h
          · -- the head is less active than the one found behind it
            cases h
            exact ⟨List.sublist_cons_self _ _, rfl, List.mem_cons_self ..⟩
          · cases h
            exact ⟨hsub.cons_cons q, by simp [hlen], List.mem_cons_of_mem _ hmem⟩

theorem takeLeastActive_isSome {peers : List Peer} (h : peers ≠ []) :
    (takeLeastActive peers).isSome = true := by
  cases peers with
  | nil => exact absurd rfl h
  | cons p ps =>
      rw [takeLeastActive]
      cases takeLeastActive ps with
      | none => rfl
      | some found =>
          dsimp only
          split <;> rfl

theorem makeRoom_sublist (c : ConnId) (peers : List Peer) (conns : Conns) :
    (makeRoom c peers conns).1.Sublist peers := by
  rw [makeRoom]
  split
  · cases h : takeLeastActive peers with
    | none => exact List.Sublist.refl _
    | some found => exact (takeLeastActive_sublist h).1
  · exact List.Sublist.refl _

/-- A room of at most two peers has place for one more. -/
theorem makeRoom_length (c : ConnId) {peers : List Peer} (conns : Conns) (h : peers.length ≤ 2) :
    (makeRoom c peers conns).1.length ≤ 1 := by
  rw [makeRoom]
  split
  · rename_i hfull
    -- one peer is taken out of the full room
    cases hleast : takeLeastActive peers with
    | none =>
        have hne : peers ≠ [] := by
          rintro rfl
          simp at hfull
        have hsome := takeLeastActive_isSome hne
        rw [hleast] at hsome
        cases hsome
    | some found =>
        have hlen := (takeLeastActive_sublist hleast).2.1
        dsimp only
        omega
  · dsimp only
    omega

theorem makeRoom_posted (c : ConnId) (peers : List Peer) (conns : Conns) :
    Posted (fun a x => ∃ p rest, 2 ≤ peers.length ∧ takeLeastActive peers = some (p, rest) ∧
      a = p.tx ∧ x = .peerDisconnect p.id c) conns (makeRoom c peers conns).2 := by
  rw [makeRoom]
  split
  · rename_i hfull
    cases h : takeLeastActive peers with
    | none => exact Posted.refl _ _
    | some found =>
        apply (trySend_posted _ _ _).mono
        rintro a x ⟨rfl, rfl⟩
        exact ⟨found.1, found.2, hfull, rfl, rfl, rfl⟩
  · exact Posted.refl _ _

/-! ## Rooms that lose entries -/

/-- What identifies an entry: its id and its connection. -/
def Peer.key (p : Peer) : Nat × ConnId := (p.id, p.tx)

/-- The room lost entries at most. -/
def RoomShrunk (room room' : Room) : Prop :=
  (room'.peers.map Peer.key).Sublist (room.peers.map Peer.key)

/-- Rooms lost entries at most, and no room was added. -/
def Shrunk (rooms rooms' : RoomMap) : Prop :=
  ∀ roomId room', rooms'.lookup roomId = some room' →
    ∃ room, rooms.lookup roomId = some room ∧ RoomShrunk room room'

theorem RoomShrunk.mem {room room' : Room} (h : RoomShrunk room room') {p' : Peer}
    (hp : p' ∈ room'.peers) : ∃ p ∈ room.peers, p.id = p'.id ∧ p.tx = p'.tx := by
  -- the key of an entry says all but its activity and token:
  have hkey : p'.key ∈ room.peers.map Peer.key := h.subset (List.mem_map_of_mem hp)
  obtain ⟨p, hp, heq⟩ := List.mem_map.1 hkey
  simp only [Peer.key, Prod.mk.injEq] at heq
  exact ⟨p, hp, heq.1, heq.2⟩

theorem roomShrunk_of_sublist {room : Room} {peers : List Peer} (h : peers.Sublist room.peers) :
    RoomShrunk room { room with peers := peers } :=
  h.map _

theorem Shrunk.refl (rooms : RoomMap) : Shrunk rooms rooms :=
  fun _ room' h => ⟨room', h, List.Sublist.refl _⟩

theorem Shrunk.trans {r₁ r₂ r₃ : RoomMap} (h : Shrunk r₁ r₂) (k : Shrunk r₂ r₃) : Shrunk r₁ r₃ := by
  intro roomId room₃ h₃
  obtain ⟨room₂, h₂, hsub₂⟩ := k roomId room₃ h₃
  obtain ⟨room₁, h₁, hsub₁⟩ := h roomId room₂ h₂
  exact ⟨room₁, h₁, hsub₂.trans hsub₁⟩

theorem shrunk_insert {rooms : RoomMap} {roomId : Text} {room room' : Room}
    (h : rooms.lookup roomId = some room) (hsub : RoomShrunk room room') :
    Shrunk rooms (rooms.insert roomId room') := by
  intro rid found hfound
  by_cases heq : rid = roomId
  · subst heq
    rw [AList.lookup_insert] at hfound
    cases hfound
    exact ⟨room, h, hsub⟩
  · rw [AList.lookup_insert_ne heq] at hfound
    exact ⟨found, hfound, List.Sublist.refl _⟩

theorem shrunk_erase (rooms : RoomMap) (roomId : Text) : Shrunk rooms (rooms.erase roomId) := by
  intro rid found hfound
  by_cases heq : rid = roomId
  · subst heq
    rw [AList.lookup_erase] at hfound
    cases hfound
  · rw [AList.lookup_erase_ne heq] at hfound
    exact ⟨found, hfound, List.Sublist.refl _⟩

theorem touch_key (peerId now : Nat) (peers : List Peer) :
    (touch peerId now peers).map Peer.key = peers.map Peer.key := by
  induction peers with
  | nil => rfl
  | cons p ps ih =>
      rw [touch]
      split
      · rfl
      · simp [ih]

/-- One room of the sweep loses entries and gets pings. -/
theorem sweepRoom_spec (now : Nat) (acc : RoomMap × Conns) (roomId : Text) :
    Shrunk acc.1 (sweepRoom now acc roomId).1 ∧
      Posted (fun _ x => x = .ping) acc.2 (sweepRoom now acc roomId).2 := by
  rw [sweepRoom]
  cases h : acc.1.lookup roomId with
  | none => exact ⟨Shrunk.refl _, Posted.refl _ _⟩
  | some room =>
      refine ⟨?_, retainAlive_posted _ _ _⟩
      dsimp only
      split
      · exact shrunk_erase _ _
      · exact shrunk_insert h (roomShrunk_of_sublist (retainAlive_sublist _ _ _))

theorem sweep_spec (s : State) :
    Shrunk s.rooms (sweep s).rooms ∧ Posted (fun _ x => x = .ping) s.conns (sweep s).conns := by
  -- over all rooms, since each one starts from what the ones before have left:
  have hfold : ∀ (ids : List Text) (acc : RoomMap × Conns),
      Shrunk acc.1 (ids.foldl (sweepRoom s.now) acc).1 ∧
        Posted (fun _ x => x = .ping) acc.2 (ids.foldl (sweepRoom s.now) acc).2 := by
    intro ids
    induction ids with
    | nil => exact fun acc => ⟨Shrunk.refl _, Posted.refl _ _⟩
    | cons roomId ids ih =>
        intro acc
        obtain ⟨hroom, hpost⟩ := sweepRoom_spec s.now acc roomId
        obtain ⟨hrest, hrestPost⟩ := ih (sweepRoom s.now acc roomId)
        exact ⟨hroom.trans hrest, hpost.trans hrestPost⟩
  exact hfold s.rooms.keys (s.rooms, s.conns)

/-! ## Steps that enter no room -/

/-- The handler of `c` holds a peer id. -/
def State.registered (s : State) (c : ConnId) : Bool := (s.conns c).pc.isRegistered

/-- Rooms lose entries at most, and the connections get messages that `A` allows. -/
structure Spreads (A : ConnId → RelayMsg → Prop) (s s' : State) : Prop where
  rooms : Shrunk s.rooms s'.rooms
  conns : Posted A s.conns s'.conns

theorem Spreads.refl (A : ConnId → RelayMsg → Prop) (s : State) : Spreads A s s where
  rooms := Shrunk.refl _
  conns := Posted.refl _ _

theorem updateActivity_spreads (A : ConnId → RelayMsg → Prop) (s : State) (c : ConnId) :
    Spreads A s (s.updateActivity c) := by
  rw [State.updateActivity]
  cases h : s.room? c with
  | none => exact Spreads.refl _ _
  | some room =>
      refine ⟨?_, Posted.refl _ _⟩
      apply shrunk_insert h
      rw [RoomShrunk]
      simp [touch_key]

/-- The messages that the handler of `c` sends to the other peers of its room. -/
def ToOthers (s : State) (c : ConnId) (x : RelayMsg) (a : ConnId) (m : RelayMsg) : Prop :=
  m = x ∧ ∃ room, s.room? c = some room ∧ ∃ p ∈ others room (s.conns c).peerId, p.tx = a

/-- The auth message goes to the handler's own connection. -/
theorem sendAuth_eq (s : State) (c : ConnId) :
    ∃ s', sendAuth s c = s'.setPc c .announcing ∧
      Spreads (fun a m => a = c ∧ ∃ token, m = .auth token) s s' := by
  refine ⟨_, rfl, Shrunk.refl _, ?_⟩
  exact (trySend_posted _ _ _).mono fun _ _ h => ⟨h.1, _, h.2⟩

/-- The join notification goes to the other peers. -/
theorem announce_eq (s : State) (c : ConnId) :
    ∃ s', announce s c = s'.setPc c .reading ∧
      Spreads (ToOthers s c (.join (s.conns c).roomId c)) s s' := by
  rw [announce]
  cases h : s.room? c with
  | none => exact ⟨s, rfl, Spreads.refl _ _⟩
  | some room =>
      refine ⟨_, rfl, Shrunk.refl _, ?_⟩
      apply (sendAll_posted _ _ _).mono
      rintro a x ⟨rfl, hpeer⟩
      exact ⟨rfl, room, h, hpeer⟩

/-- A message is forwarded to the other peers. -/
theorem forward_eq (J : SerdeJson) (s : State) (c : ConnId) (p : Payload) :
    ∃ s', forward J s c p = s'.setPc c .reading ∧
      Spreads (ToOthers s c (.forwarded (forwardMsg J p) c)) s s' := by
  rw [forward]
  cases h : s.room? c with
  | none => exact ⟨s, rfl, Spreads.refl _ _⟩
  | some room =>
      refine ⟨_, rfl, (updateActivity_spreads (fun _ _ => True) s c).rooms, ?_⟩
      apply (sendAll_posted _ _ _).mono
      rintro a x ⟨rfl, hpeer⟩
      exact ⟨rfl, room, h, hpeer⟩

/-- The cleanup removes every entry under the id of its handler and notifies the others. -/
theorem cleanup_eq (s : State) (c : ConnId) :
    ∃ s', cleanup s c = s'.setPc c .done ∧
      Spreads (ToOthers s c (.peerDisconnect (s.conns c).peerId c)) s s' ∧
      ∀ room, s'.rooms.lookup (s.conns c).roomId = some room →
        ∀ p ∈ room.peers, p.id ≠ (s.conns c).peerId := by
  rw [cleanup]
  cases h : s.room? c with
  | none =>
      refine ⟨s, rfl, Spreads.refl _ _, ?_⟩
      intro room hroom
      rw [State.room?, hroom] at h
      cases h
  | some room =>
      -- the others are some of the entries:
      have hothers : (others room (s.conns c).peerId).Sublist room.peers := List.filter_sublist
      refine ⟨_, rfl, ⟨?_, ?_⟩, ?_⟩
      · -- the room is removed with its last entry
        dsimp only
        split
        · exact shrunk_erase _ _
        · exact shrunk_insert h (roomShrunk_of_sublist hothers)
      · apply (sendAll_posted _ _ _).mono
        rintro a x ⟨rfl, hpeer⟩
        exact ⟨rfl, room, h, hpeer⟩
      · -- what is left of the room are the others
        intro found hfound p hp
        dsimp only at hfound
        split at hfound
        · rw [AList.lookup_erase] at hfound
          cases hfound
        · rw [AList.lookup_insert] at hfound
          cases hfound
          exact of_decide_eq_true (List.mem_filter.1 hp).2

/-- A frame in the read loop: the handler goes on in some place where it keeps its id, and a pong may
have gone onto a channel. -/
theorem readFrame_eq (J : SerdeJson) {s : State} {c : ConnId} (hpc : (s.conns c).pc = .reading)
    (f : Frame) :
    ∃ s' pc, readFrame J s c f = s'.setPc c pc ∧ pc.isRegistered = true ∧
      Spreads (fun _ m => ∃ d, m = .pong d) s s' := by
  -- either the handler goes on to some place, or the frame is dropped:
  have stays : ∀ pc : Pc, pc.isRegistered = true → ∃ s' pc', s.setPc c pc = s'.setPc c pc' ∧
      pc'.isRegistered = true ∧ Spreads (fun _ m => ∃ d, m = .pong d) s s' :=
    fun pc h => ⟨s, pc, rfl, h, Spreads.refl _ _⟩
  have hself : ∀ s' : State, (s'.conns c).pc = .reading → s' = s'.setPc c .reading := by
    intro s' h
    have hconn : s'.conns c = { s'.conns c with pc := .reading } := by rw [← h]
    rw [State.setPc, State.setConn, ← hconn, Function.update_eq_self]
  have drop : ∃ s' pc, s = s'.setPc c pc ∧ pc.isRegistered = true ∧
      Spreads (fun _ m => ∃ d, m = .pong d) s s' := ⟨s, .reading, hself s hpc, rfl, Spreads.refl _ _⟩
  cases f with
  | close => exact stays .closing rfl
  | binary d => exact stays _ rfl
  | pong =>
      have hspread := updateActivity_spreads (fun _ m => ∃ d, m = RelayMsg.pong d) s c
      exact ⟨_, .reading, hself _ ((hspread.conns.pc c).trans hpc), rfl, hspread⟩
  | ping d =>
      rw [readFrame, answerPing]
      cases s.ownPeer? c with
      | none => exact stays .ponged rfl
      | some peer =>
          refine ⟨_, .ponged, rfl, rfl, Shrunk.refl _, ?_⟩
          exact (trySend_posted _ _ _).mono fun _ _ h => ⟨d, h.2⟩
  | text t =>
      rw [readFrame]
      split
      · exact drop
      · cases J.fromStr t with
        | none => exact drop
        | some val =>
            dsimp only
            split
            · exact stays _ rfl
            · exact drop

/-! ## Entering a room -/

/-- The peer that is evicted for the handler of `c` when it enters its room. -/
def evictee (s : State) (c : ConnId) : Option Peer :=
  let peers := (retainAlive (fun _ => true) (entering s c).peers s.conns).1
  if 2 ≤ peers.length then (takeLeastActive peers).map (·.1) else none

/-- Entering a room keeps some of its entries and adds one; the others get pings and the evicted peer
its notice. -/
theorem register_eq (s : State) (c : ConnId) (token : Bytes) :
    ∃ kept conns', kept.Sublist (entering s c).peers ∧
      ((entering s c).peers.length ≤ 2 → kept.length ≤ 1) ∧
      Posted (fun a m => m = .ping ∨
        ∃ p, evictee s c = some p ∧ a = p.tx ∧ m = .peerDisconnect p.id c) s.conns conns' ∧
      register s c token =
        { s with
          rooms := s.rooms.insert (s.conns c).roomId
            (Room.addPeer { entering s c with peers := kept } c s.now token)
          conns := Function.update conns' c
            { conns' c with
              pc := .entered, peerId := (entering s c).nextId, authToken := Lib.Hex.encode token
              queue := [], rxAlive := true } } := by
  -- first the ping filter, then the eviction, each of which keeps a sublist:
  have hsub := retainAlive_sublist (fun _ => true) (entering s c).peers s.conns
  refine ⟨_, _, (makeRoom_sublist c _ _).trans hsub, ?_, ?_, rfl⟩
  · intro hlen
    exact makeRoom_length c _ (hsub.length_le.trans hlen)
  · have hping := (retainAlive_posted (fun _ => true) (entering s c).peers s.conns).mono
      (fun a m h => Or.inl h : ∀ a m, m = RelayMsg.ping → m = .ping ∨
        ∃ p, evictee s c = some p ∧ a = p.tx ∧ m = .peerDisconnect p.id c)
    apply hping.trans
    apply (makeRoom_posted c _ _).mono
    rintro a m ⟨p, rest, hfull, hleast, rfl, rfl⟩
    -- the notified peer is the one that `evictee` names:
    refine Or.inr ⟨p, ?_, rfl, rfl⟩
    rw [evictee, if_pos hfull, hleast]
    rfl

/-! ## Quiet steps -/

/-- A step that enters no room. -/
structure Quiet (s m : State) : Prop where
  rooms : Shrunk s.rooms m.rooms
  /-- The handlers that hold an id held it before. -/
  held : ∀ c, m.registered c = true → s.registered c = true ∧
    (m.conns c).roomId = (s.conns c).roomId ∧ (m.conns c).peerId = (s.conns c).peerId
  /-- A handler that gives its id up leaves no entry under it. -/
  released : ∀ c, s.registered c = true → m.registered c = true ∨
    ∀ room, m.rooms.lookup (s.conns c).roomId = some room →
      ∀ p ∈ room.peers, p.id ≠ (s.conns c).peerId
  /-- A connection that has read its join stays with its room. -/
  settled : ∀ c, (s.conns c).pc ≠ .accepted →
    (m.conns c).pc ≠ .accepted ∧ (m.conns c).roomId = (s.conns c).roomId
  entered : ∀ c, (s.conns c).pc.hasEntered = true → (m.conns c).pc.hasEntered = true
  token : ∀ c, (m.conns c).authToken = (s.conns c).authToken

theorem Pc.hasEntered_of_isRegistered {pc : Pc} (h : pc.isRegistered = true) :
    pc.hasEntered = true := by
  cases pc with
  | accepted => cases h
  | joining => cases h
  | _ => rfl

theorem Pc.ne_accepted_of_hasEntered {pc : Pc} (h : pc.hasEntered = true) : pc ≠ .accepted := by
  rintro rfl
  cases h

/-- Replacing the record of one connection, apart from what the step spreads, is quiet if it is so for
this connection. -/
theorem quiet_replace {A : ConnId → RelayMsg → Prop} {s s' : State} {c : ConnId} {conn : Conn}
    (h : Spreads A s s')
    (hheld : conn.pc.isRegistered = true → s.registered c = true ∧
      conn.roomId = (s.conns c).roomId ∧ conn.peerId = (s.conns c).peerId)
    (hreleased : s.registered c = true → conn.pc.isRegistered = true ∨
      ∀ room, s'.rooms.lookup (s.conns c).roomId = some room →
        ∀ p ∈ room.peers, p.id ≠ (s.conns c).peerId)
    (hsettled : (s.conns c).pc ≠ .accepted →
      conn.pc ≠ .accepted ∧ conn.roomId = (s.conns c).roomId)
    (hentered : (s.conns c).pc.hasEntered = true → conn.pc.hasEntered = true)
    (htok : conn.authToken = (s.conns c).authToken) : Quiet s (s'.setConn c conn) := by
  have hself : (s'.setConn c conn).conns c = conn := Function.update_self _ _ _
  -- the other connections get messages only
  have hother : ∀ a, a ≠ c → (s'.setConn c conn).conns a = s'.conns a :=
    fun a hac => Function.update_of_ne hac _ _
  refine ⟨h.rooms, ?_, ?_, ?_, ?_, ?_⟩
  · intro a ha
    by_cases hac : a = c
    · subst hac
      rw [State.registered, hself] at ha
      rw [hself]
      exact hheld ha
    · rw [State.registered, hother a hac, h.conns.pc] at ha
      rw [hother a hac]
      exact ⟨ha, h.conns.roomId a, h.conns.peerId a⟩
  · intro a ha
    by_cases hac : a = c
    · subst hac
      rw [State.registered, hself]
      exact hreleased ha
    · left
      rw [State.registered, hother a hac, h.conns.pc]
      exact ha
  · intro a ha
    by_cases hac : a = c
    · subst hac
      rw [hself]
      exact hsettled ha
    · rw [hother a hac, h.conns.pc]
      exact ⟨ha, h.conns.roomId a⟩
  · intro a ha
    by_cases hac : a = c
    · subst hac
      rw [hself]
      exact hentered ha
    · rw [hother a hac, h.conns.pc]
      exact ha
  · intro a
    by_cases hac : a = c
    · subst hac
      rw [hself]
      exact htok
    · rw [hother a hac]
      exact h.conns.authToken a

/-- A step that changes nothing but where one handler stands, apart from what it spreads. -/
theorem quiet_setConn {A : ConnId → RelayMsg → Prop} {s s' : State} {c : ConnId} {conn : Conn}
    (h : Spreads A s s') (hpc : conn.pc.isRegistered = (s.conns c).pc.isRegistered)
    (hent : conn.pc = (s.conns c).pc ∨ conn.pc.hasEntered = true)
    (hroom : conn.roomId = (s.conns c).roomId) (hid : conn.peerId = (s.conns c).peerId)
    (htok : conn.authToken = (s.conns c).authToken) :
    Quiet s (s'.setConn c conn) := by
  apply quiet_replace h
  · intro hreg
    exact ⟨hpc.symm.trans hreg, hroom, hid⟩
  · intro hreg
    exact Or.inl (hpc.trans hreg)
  · intro hne
    refine ⟨?_, hroom⟩
    rcases hent with hsame | hent
    · rw [hsame]
      exact hne
    · exact Pc.ne_accepted_of_hasEntered hent
  · intro hold
    rcases hent with hsame | hent
    · rw [hsame]
      exact hold
    · exact hent
  · exact htok

theorem quiet_setPc {A : ConnId → RelayMsg → Prop} {s s' : State} {c : ConnId} {pc : Pc}
    (h : Spreads A s s') (hpc : pc.isRegistered = (s.conns c).pc.isRegistered)
    (hent : pc.hasEntered = true) : Quiet s (s'.setPc c pc) :=
  quiet_setConn h hpc (Or.inr hent) (h.conns.roomId c) (h.conns.peerId c) (h.conns.authToken c)

theorem cleanup_quiet {s : State} {c : ConnId} : Quiet s (cleanup s c) := by
  obtain ⟨s', heq, hspread, hgone⟩ := cleanup_eq s c
  rw [heq]
  apply quiet_replace hspread
  · intro hreg
    cases hreg
  · intro _
    exact Or.inr hgone
  · intro _
    exact ⟨Pc.ne_accepted_of_hasEntered rfl, hspread.conns.roomId c⟩
  · intro _
    rfl
  · exact hspread.conns.authToken c

/-- The first message registers nobody. -/
theorem first_quiet {J : SerdeJson} {s : State} {c : ConnId} (hpc : (s.conns c).pc = .accepted)
    (t : Option Text) : Quiet s (first J s c t) := by
  -- a connection that has only been accepted holds no id and has entered no room:
  have hnew : ∀ conn : Conn, conn.pc.isRegistered = false →
      conn.authToken = (s.conns c).authToken → Quiet s (s.setConn c conn) := by
    intro conn hconn htok
    apply quiet_replace (Spreads.refl (fun _ _ => True) s)
    · intro hreg
      rw [hconn] at hreg
      cases hreg
    · intro hreg
      rw [State.registered, hpc] at hreg
      cases hreg
    · intro hne
      exact absurd hpc hne
    · intro hent
      rw [hpc] at hent
      cases hent
    · exact htok
  rw [first]
  cases t.bind (readJoin J) with
  | some roomId => exact hnew _ rfl rfl
  | none => exact hnew _ rfl rfl

theorem deliver_eq {s m : State} {c : ConnId} (h : deliver s c = some m) :
    ∃ x xs, (s.conns c).queue = x :: xs ∧
      m = s.setConn c { s.conns c with queue := xs, wire := (s.conns c).wire ++ [x] } := by
  rw [deliver] at h
  split at h
  · cases hq : (s.conns c).queue with
    | nil =>
        rw [hq] at h
        cases h
    | cons x xs =>
        rw [hq] at h
        exact ⟨x, xs, rfl, (Option.some.inj h).symm⟩
  · cases h

/-- A guarded step. -/
theorem of_guard {p : Prop} [Decidable p] {s m : State} (h : (if p then some s else none) = some m) :
    p ∧ m = s := by
  split at h
  · exact ⟨by assumption, (Option.some.inj h).symm⟩
  · cases h

/-- Only a handler that holds a payload forwards one. -/
theorem forward_of_step {J : SerdeJson} {s m : State} {c : ConnId}
    (h : step J s (.forward c) = some m) :
    ∃ p, (s.conns c).pc = .forwarding p ∧ m = forward J s c p := by
  cases hpc : (s.conns c).pc with
  | forwarding p =>
      simp only [step, hpc] at h
      exact ⟨p, rfl, (Option.some.inj h).symm⟩
  | _ => simp [step, hpc] at h

/-- The peer reads the oldest message of its socket. -/
theorem receive_of_step {J : SerdeJson} {s m : State} {c : ConnId}
    (h : step J s (.receive c) = some m) :
    ∃ x xs, (s.conns c).wire = x :: xs ∧ m = s.setConn c { s.conns c with wire := xs } := by
  cases hw : (s.conns c).wire with
  | nil => simp [step, hw] at h
  | cons x xs =>
      simp only [step, hw] at h
      exact ⟨x, xs, rfl, (Option.some.inj h).symm⟩

/-- Every step but entering a room is quiet. -/
theorem step_quiet {J : SerdeJson} {s m : State} {e : Event} (h : step J s e = some m)
    (he : ∀ c token, e ≠ .register c token) : Quiet s m := by
  have same : Spreads (fun _ _ => True) s s := Spreads.refl _ s
  cases e with
  | first c t =>
      obtain ⟨hpc, rfl⟩ := of_guard h
      exact first_quiet hpc t
  | register c token => exact absurd rfl (he c token)
  | sendAuth c =>
      obtain ⟨hpc, rfl⟩ := of_guard h
      obtain ⟨s', heq, hspread⟩ := sendAuth_eq s c
      rw [heq]
      exact quiet_setPc hspread (by rw [hpc]; rfl) rfl
  | announce c =>
      obtain ⟨hpc, rfl⟩ := of_guard h
      obtain ⟨s', heq, hspread⟩ := announce_eq s c
      rw [heq]
      exact quiet_setPc hspread (by rw [hpc]; rfl) rfl
  | frame c f =>
      obtain ⟨hpc, rfl⟩ := of_guard h
      obtain ⟨s', pc, heq, hreg, hspread⟩ := readFrame_eq J hpc f
      rw [heq]
      exact quiet_setPc hspread (by rw [hreg, hpc]; rfl) (Pc.hasEntered_of_isRegistered hreg)
  | activity c =>
      obtain ⟨hpc, rfl⟩ := of_guard h
      exact quiet_setPc (updateActivity_spreads (fun _ _ => True) s c) (by rw [hpc]; rfl) rfl
  | forward c =>
      obtain ⟨p, hpc, rfl⟩ := forward_of_step h
      obtain ⟨s', heq, hspread⟩ := forward_eq J s c p
      rw [heq]
      exact quiet_setPc hspread (by rw [hpc]; rfl) rfl
  | streamEnd c =>
      obtain ⟨hpc, rfl⟩ := of_guard h
      exact quiet_setPc same (by rw [hpc]; rfl) rfl
  | cleanup c =>
      obtain ⟨-, rfl⟩ := of_guard h
      exact cleanup_quiet
  | deliver c =>
      obtain ⟨x, xs, -, rfl⟩ := deliver_eq h
      exact quiet_setConn same rfl (Or.inl rfl) rfl rfl rfl
  | keepalive c =>
      obtain ⟨-, rfl⟩ := of_guard h
      exact quiet_setConn same rfl (Or.inl rfl) rfl rfl rfl
  | writerEnds c =>
      obtain ⟨-, rfl⟩ := of_guard h
      exact quiet_setConn same rfl (Or.inl rfl) rfl rfl rfl
  | receive c =>
      obtain ⟨x, xs, -, rfl⟩ := receive_of_step h
      exact quiet_setConn same rfl (Or.inl rfl) rfl rfl rfl
  | sweep =>
      obtain rfl := Option.some.inj h
      -- no handler moves, and all of them keep what they hold:
      obtain ⟨hrooms, hpost⟩ := sweep_spec s
      refine ⟨hrooms, ?_, ?_, ?_, ?_, hpost.authToken⟩
      · intro a ha
        rw [State.registered, hpost.pc] at ha
        exact ⟨ha, hpost.roomId a, hpost.peerId a⟩
      · intro a ha
        left
        rw [State.registered, hpost.pc]
        exact ha
      · intro a ha
        rw [hpost.pc]
        exact ⟨ha, hpost.roomId a⟩
      · intro a ha
        rw [hpost.pc]
        exact ha
  | elapse d =>
      obtain rfl := Option.some.inj h
      exact ⟨Shrunk.refl _, fun c hc => ⟨hc, rfl, rfl⟩, fun c hc => Or.inl hc,
        fun c hc => ⟨hc, rfl⟩, fun c hc => hc, fun c => rfl⟩

/-- A step enters a room or is quiet. -/
theorem register_or_quiet {J : SerdeJson} {s m : State} {e : Event} (h : step J s e = some m) :
    (∃ c token, e = .register c token ∧ (s.conns c).pc = .joining ∧ m = register s c token) ∨
      (∀ c token, e ≠ .register c token) ∧ Quiet s m := by
  by_cases he : ∃ c token, e = .register c token
  · obtain ⟨c, token, rfl⟩ := he
    obtain ⟨hpc, hm⟩ := of_guard h
    exact Or.inl ⟨c, token, rfl, hpc, hm⟩
  · have hne : ∀ c token, e ≠ .register c token := fun c token heq => he ⟨c, token, heq⟩
    exact Or.inr ⟨hne, step_quiet h hne⟩

/-! ## What reaches a connection -/

/-- A message that is not a ping or pong. -/
def RelayMsg.isSignal : RelayMsg → Bool
  | .ping => false
  | .pong _ => false
  | _ => true

/-- What is on its way to the peer of a connection, oldest first: sent, then queued. -/
def Conn.inbound (conn : Conn) : List RelayMsg := (conn.wire ++ conn.queue).filter RelayMsg.isSignal

/-- The signals that an event puts on the channel of `a`. -/
def Sends (J : SerdeJson) (s : State) (e : Event) (a : ConnId) (x : RelayMsg) : Prop :=
  match e with
  | .sendAuth c => a = c ∧ x = .auth (s.conns c).authToken
  | .announce c => ToOthers s c (.join (s.conns c).roomId c) a x
  | .forward c =>
      ∃ p, (s.conns c).pc = .forwarding p ∧ ToOthers s c (.forwarded (forwardMsg J p) c) a x
  | .cleanup c => ToOthers s c (.peerDisconnect (s.conns c).peerId c) a x
  | .register c _ => ∃ p, evictee s c = some p ∧ a = p.tx ∧ x = .peerDisconnect p.id c
  | _ => False

/-- What one step does with the channel and the socket of a connection: messages come onto the channel,
of which `A` allows the signals; the channel is opened; its next message goes to the socket; a ping goes
to the socket; the peer reads. -/
inductive ChannelStep (A : RelayMsg → Prop) (conn conn' : Conn) : Prop
  | posted (added : List RelayMsg) (hq : conn'.queue = conn.queue ++ added)
      (hw : conn'.wire = conn.wire) (h : ∀ x ∈ added, x.isSignal = true → A x)
  | opened (hq : conn'.queue = []) (hw : conn'.wire = conn.wire)
  | delivered (x : RelayMsg) (hq : conn.queue = x :: conn'.queue) (hw : conn'.wire = conn.wire ++ [x])
  | pinged (hq : conn'.queue = conn.queue) (hw : conn'.wire = conn.wire ++ [.ping])
  | received (x : RelayMsg) (hq : conn'.queue = conn.queue) (hw : conn.wire = x :: conn'.wire)

theorem ChannelStep.same (A : RelayMsg → Prop) {conn conn' : Conn} (hq : conn'.queue = conn.queue)
    (hw : conn'.wire = conn.wire) : ChannelStep A conn conn' :=
  .posted [] (by simp [hq]) hw (by simp)

theorem Posted.channelStep {A : ConnId → RelayMsg → Prop} {B : RelayMsg → Prop} {conns conns' : Conns}
    {a : ConnId} (h : Posted A conns conns') (hAB : ∀ x, A a x → x.isSignal = true → B x) :
    ChannelStep B (conns a) (conns' a) := by
  obtain ⟨added, heq, hall⟩ := h a
  exact .posted added (by rw [heq]) (by rw [heq]) fun x hx hsig => hAB x (hall x hx) hsig

/-- Replacing the record of a connection is a step of its own channel only. -/
theorem channelStep_setConn {B : RelayMsg → Prop} {s : State} {c : ConnId} {conn : Conn} (a : ConnId)
    (h : ChannelStep B (s.conns c) conn) : ChannelStep B (s.conns a) ((s.setConn c conn).conns a) := by
  by_cases hac : a = c
  · subst hac
    simpa [State.setConn] using h
  · apply ChannelStep.same
    · simp [State.setConn, hac]
    · simp [State.setConn, hac]

theorem channelStep_setPc {B : RelayMsg → Prop} {A : ConnId → RelayMsg → Prop} {s s' : State}
    (c : ConnId) (pc : Pc) {a : ConnId} (h : Spreads A s s')
    (hAB : ∀ x, A a x → x.isSignal = true → B x) :
    ChannelStep B (s.conns a) ((s'.setPc c pc).conns a) := by
  obtain ⟨added, heq, hall⟩ := h.conns a
  have hadded : ∀ x ∈ added, x.isSignal = true → B x := fun x hx hsig => hAB x (hall x hx) hsig
  by_cases hac : a = c
  · subst hac
    exact .posted added (by simp [State.setPc, State.setConn, heq])
      (by simp [State.setPc, State.setConn, heq]) hadded
  · exact .posted added (by simp [State.setPc, State.setConn, hac, heq])
      (by simp [State.setPc, State.setConn, hac, heq]) hadded

/-- The signals that a step puts on the channel of `a` are those of `Sends`. -/
theorem step_channel {J : SerdeJson} {s m : State} {e : Event} (h : step J s e = some m)
    (a : ConnId) : ChannelStep (Sends J s e a) (s.conns a) (m.conns a) := by
  cases e with
  | first c t =>
      obtain ⟨-, rfl⟩ := of_guard h
      rw [first]
      cases t.bind (readJoin J) with
      | some roomId => exact channelStep_setConn a (.same _ rfl rfl)
      | none => exact channelStep_setConn a (.same _ rfl rfl)
  | register c token =>
      obtain ⟨-, rfl⟩ := of_guard h
      obtain ⟨kept, conns', -, -, hpost, heq⟩ := register_eq s c token
      rw [heq]
      by_cases hac : a = c
      · -- the channel of the new entry
        subst hac
        obtain ⟨added, hconn, -⟩ := hpost a
        exact .opened (by simp) (by simp [hconn])
      · simp only [Function.update_of_ne hac]
        apply hpost.channelStep
        rintro x (rfl | hnotice) hsig
        · -- a ping is no signal
          cases hsig
        · exact hnotice
  | sendAuth c =>
      obtain ⟨-, rfl⟩ := of_guard h
      exact channelStep_setPc c _ ⟨Shrunk.refl _, trySend_posted _ _ _⟩ fun x hx _ => hx
  | announce c =>
      obtain ⟨-, rfl⟩ := of_guard h
      obtain ⟨s', heq, hspread⟩ := announce_eq s c
      rw [heq]
      exact channelStep_setPc c _ hspread fun x hx _ => hx
  | frame c f =>
      obtain ⟨hpc, rfl⟩ := of_guard h
      obtain ⟨s', pc, heq, -, hspread⟩ := readFrame_eq J hpc f
      rw [heq]
      apply channelStep_setPc c _ hspread
      -- a pong is no signal
      rintro x ⟨d, rfl⟩ hsig
      cases hsig
  | activity c =>
      obtain ⟨-, rfl⟩ := of_guard h
      exact channelStep_setPc c _ (updateActivity_spreads (fun _ _ => False) s c)
        fun x hx _ => hx.elim
  | forward c =>
      obtain ⟨p, hpc, rfl⟩ := forward_of_step h
      obtain ⟨s', heq, hspread⟩ := forward_eq J s c p
      rw [heq]
      exact channelStep_setPc c _ hspread fun x hx _ => ⟨p, hpc, hx⟩
  | streamEnd c =>
      obtain ⟨-, rfl⟩ := of_guard h
      exact channelStep_setConn a (.same _ rfl rfl)
  | cleanup c =>
      obtain ⟨-, rfl⟩ := of_guard h
      obtain ⟨s', heq, hspread, -⟩ := cleanup_eq s c
      rw [heq]
      exact channelStep_setPc c _ hspread fun x hx _ => hx
  | deliver c =>
      obtain ⟨x, xs, hq, rfl⟩ := deliver_eq h
      exact channelStep_setConn a (.delivered x hq rfl)
  | keepalive c =>
      obtain ⟨-, rfl⟩ := of_guard h
      exact channelStep_setConn a (.pinged rfl rfl)
  | writerEnds c =>
      obtain ⟨-, rfl⟩ := of_guard h
      exact channelStep_setConn a (.same _ rfl rfl)
  | receive c =>
      obtain ⟨x, xs, hw, rfl⟩ := receive_of_step h
      exact channelStep_setConn a (.received x rfl hw)
  | sweep =>
      obtain rfl := Option.some.inj h
      apply (sweep_spec s).2.channelStep
      -- the ping of a sweep is no signal:
      rintro x rfl hsig
      cases hsig
  | elapse d =>
      obtain rfl := Option.some.inj h
      exact .same _ rfl rfl

/-- A step adds to what is on its way to `a` the signals it puts on the channel of `a`, behind
everything else. -/
theorem step_inbound {J : SerdeJson} {s m : State} {e : Event} (h : step J s e = some m)
    (a : ConnId) :
    ∃ added, ((m.conns a).inbound).Sublist ((s.conns a).inbound ++ added) ∧
      ∀ x ∈ added, Sends J s e a x := by
  cases step_channel h a with
  | posted added hq hw hall =>
      refine ⟨added.filter RelayMsg.isSignal, ?_, ?_⟩
      · rw [Conn.inbound, Conn.inbound, hq, hw, ← List.filter_append, List.append_assoc]
      · intro x hx
        -- pings and pongs are filtered out:
        obtain ⟨hx, hsig⟩ := List.mem_filter.1 hx
        exact hall x hx hsig
  | opened hq hw =>
      refine ⟨[], ?_, by simp⟩
      rw [Conn.inbound, Conn.inbound, hq, hw, List.append_nil, List.append_nil]
      -- what stood on an old channel is lost, what was on the wire is not:
      exact (List.sublist_append_left _ _).filter _
  | delivered x hq hw =>
      refine ⟨[], ?_, by simp⟩
      simp [Conn.inbound, hq, hw]
  | pinged hq hw =>
      refine ⟨[], ?_, by simp⟩
      simp [Conn.inbound, hq, hw, RelayMsg.isSignal]
  | received x hq hw =>
      refine ⟨[], ?_, by simp⟩
      rw [Conn.inbound, Conn.inbound, hq, hw, List.append_nil, List.cons_append]
      exact (List.sublist_cons_self _ _).filter _

end Ktty.Relay
