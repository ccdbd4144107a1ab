import Ktty.Relay.Ownership

/-!
# The room map

What each step does to the rooms. Only three steps insert or remove entries: a handler that enters its
room, a cleanup, and a sweep. The others leave the outline of every room, which is its counter with the
ids, channels and tokens of its peers (`step_outline`).

Every room in the map has one or two peers, and a join adds its peer and evicts one peer at most for
the capacity, one with the least activity. The ids of a room are distinct and below its counter exactly
in the runs in which no join finds the counter at its last value: after that join the counter starts
over (`roomMap_invariant`).
-/

set_option autoImplicit false

namespace Ktty.Relay

open Ktty.Wire Ktty.Lib.Execution

/-! ## Steps that neither insert nor remove entries -/

/-- The counter of a room with the ids, channels and tokens of its peers. -/
def Room.outline (room : Room) : Nat × List (Nat × ConnId × Text) :=
  (room.nextId, room.peers.map fun p => (p.id, p.tx, p.authToken))

def outlineAt (rooms : RoomMap) (roomId : Text) : Option (Nat × List (Nat × ConnId × Text)) :=
  (rooms.lookup roomId).map Room.outline

/-- The events that insert or remove entries. -/
def Event.editsRooms : Event → Bool
  | .register _ _ => true
  | .cleanup _ => true
  | .sweep => true
  | _ => false

theorem touch_outline (room : Room) (peerId now : Nat) :
    Room.outline { room with peers := touch peerId now room.peers } = room.outline := by
  -- only the activity changes, which the outline leaves out:
  have hpeers : ∀ peers : List Peer, (touch peerId now peers).map (fun p => (p.id, p.tx, p.authToken)) =
      peers.map fun p => (p.id, p.tx, p.authToken) := by
    intro peers
    induction peers with
    | nil => rfl
    | cons p ps ih =>
        rw [touch]
        split
        · rfl
        · simp [ih]
  simp [Room.outline, hpeers]

/-- Replacing a room by one of the same outline. -/
theorem outlineAt_insert {rooms : RoomMap} {roomId : Text} {room room' : Room}
    (h : rooms.lookup roomId = some room) (hout : room'.outline = room.outline) (rid : Text) :
    outlineAt (rooms.insert roomId room') rid = outlineAt rooms rid := by
  by_cases heq : rid = roomId
  · subst heq
    simp [outlineAt, h, hout]
  · rw [outlineAt, outlineAt, AList.lookup_insert_ne heq]

theorem updateActivity_outline (s : State) (c : ConnId) (roomId : Text) :
    outlineAt (s.updateActivity c).rooms roomId = outlineAt s.rooms roomId := by
  rw [State.updateActivity]
  cases h : s.room? c with
  | none => rfl
  | some room => exact outlineAt_insert h (touch_outline room _ _) roomId

theorem forward_outline (J : SerdeJson) (s : State) (c : ConnId) (p : Payload) (roomId : Text) :
    outlineAt (forward J s c p).rooms roomId = outlineAt s.rooms roomId := by
  rw [forward]
  cases h : s.room? c with
  | none => rfl
  | some room => exact updateActivity_outline s c roomId

theorem readFrame_outline (J : SerdeJson) (s : State) (c : ConnId) (f : Frame) (roomId : Text) :
    outlineAt (readFrame J s c f).rooms roomId = outlineAt s.rooms roomId := by
  cases f with
  | close => rfl
  | binary d => rfl
  | pong => exact updateActivity_outline s c roomId
  | ping d =>
      rw [readFrame, answerPing]
      cases s.ownPeer? c with
      | none => rfl
      | some peer => rfl
  | text t =>
      rw [readFrame]
      split
      · rfl
      · cases J.fromStr t with
        | none => rfl
        | some val =>
            dsimp only
            split <;> rfl

/-- The other steps leave the outline of every room. -/
theorem step_outline {J : SerdeJson} {s m : State} {e : Event} (h : step J s e = some m)
    (he : e.editsRooms = false) (roomId : Text) :
    outlineAt m.rooms roomId = outlineAt s.rooms roomId := by
  cases e with
  | first c t =>
      obtain ⟨-, rfl⟩ := of_guard h
      rw [first]
      cases t.bind (readJoin J) with
      | some roomId => rfl
      | none => rfl
  -- `register`, `cleanup` and `sweep` are not among these steps:
  | register c token => cases he
  | sendAuth c =>
      obtain ⟨-, rfl⟩ := of_guard h
      rfl
  | announce c =>
      obtain ⟨-, rfl⟩ := of_guard h
      rw [announce]
      cases s.room? c with
      | none => rfl
      | some room => rfl
  | frame c f =>
      obtain ⟨-, rfl⟩ := of_guard h
      exact readFrame_outline J s c f roomId
  | activity c =>
      obtain ⟨-, rfl⟩ := of_guard h
      exact updateActivity_outline s c roomId
  | forward c =>
      obtain ⟨p, -, rfl⟩ := forward_of_step h
      exact forward_outline J s c p roomId
  | streamEnd c =>
      obtain ⟨-, rfl⟩ := of_guard h
      rfl
  | cleanup c => cases he
  | deliver c =>
      obtain ⟨x, xs, -, rfl⟩ := deliver_eq h
      rfl
  | keepalive c =>
      obtain ⟨-, rfl⟩ := of_guard h
      rfl
  | writerEnds c =>
      obtain ⟨-, rfl⟩ := of_guard h
      rfl
  | receive c =>
      obtain ⟨x, xs, -, rfl⟩ := receive_of_step h
      rfl
  | sweep => cases he
  | elapse d =>
      obtain rfl := Option.some.inj h
      rfl

/-! ## The cleanup and the sweep -/

/-- The room that is left under a room id, if it still has peers. -/
def keepRoom (room : Room) (peers : List Peer) : Option Room :=
  if peers.isEmpty then none else some { room with peers := peers }

theorem keepRoom_eq_some {room room' : Room} {peers : List Peer} (h : keepRoom room peers = some room') :
    room' = { room with peers := peers } ∧ peers ≠ [] := by
  rw [keepRoom] at h
  split at h
  · cases h
  · rename_i hne
    exact ⟨(Option.some.inj h).symm, fun hnil => hne (by rw [hnil]; rfl)⟩

theorem keepRoom_of_mem {room : Room} {peers : List Peer} {p : Peer} (h : p ∈ peers) :
    keepRoom room peers = some { room with peers := peers } := by
  rw [keepRoom, if_neg]
  intro hempty
  rw [List.isEmpty_iff.1 hempty] at h
  cases h

theorem lookup_keepRoom (rooms : RoomMap) (roomId : Text) (room : Room) (peers : List Peer) :
    (if peers.isEmpty then rooms.erase roomId
      else rooms.insert roomId { room with peers := peers }).lookup roomId = keepRoom room peers := by
  rw [keepRoom]
  split
  · exact AList.lookup_erase _ _
  · exact AList.lookup_insert _

theorem lookup_keepRoom_ne {rooms : RoomMap} {roomId rid : Text} (hne : rid ≠ roomId) (room : Room)
    (peers : List Peer) :
    (if peers.isEmpty then rooms.erase roomId
      else rooms.insert roomId { room with peers := peers }).lookup rid = rooms.lookup rid := by
  split
  · exact AList.lookup_erase_ne hne
  · exact AList.lookup_insert_ne hne

/-- A cleanup leaves of its room the peers with other ids. -/
theorem cleanup_lookup (s : State) (c : ConnId) (roomId : Text) :
    (cleanup s c).rooms.lookup roomId =
      if roomId = (s.conns c).roomId then
        (s.rooms.lookup roomId).bind fun room => keepRoom room (others room (s.conns c).peerId)
      else s.rooms.lookup roomId := by
  by_cases hid : roomId = (s.conns c).roomId
  · rw [if_pos hid, hid, ← State.room?, cleanup]
    cases h : s.room? c with
    | none => exact h
    | some room => exact lookup_keepRoom _ _ _ _
  · rw [if_neg hid, cleanup]
    cases h : s.room? c with
    | none => rfl
    | some room => exact lookup_keepRoom_ne hid _ _

theorem sweepRoom_lookup (now : Nat) (acc : RoomMap × Conns) (roomId : Text) :
    (sweepRoom now acc roomId).1.lookup roomId =
      (acc.1.lookup roomId).bind fun room =>
        keepRoom room (retainAlive (youngAt now) room.peers acc.2).1 := by
  rw [sweepRoom]
  cases h : acc.1.lookup roomId with
  | none => exact h
  | some room => exact lookup_keepRoom _ _ _ _

theorem sweepRoom_lookup_ne (now : Nat) (acc : RoomMap × Conns) {roomId rid : Text}
    (hne : rid ≠ roomId) : (sweepRoom now acc roomId).1.lookup rid = acc.1.lookup rid := by
  rw [sweepRoom]
  cases acc.1.lookup roomId with
  | none => rfl
  | some room => exact lookup_keepRoom_ne hne _ _

/-- A sweep of rooms leaves the others. -/
theorem foldl_sweepRoom_lookup (now : Nat) {ids : List Text} {roomId : Text} (hid : roomId ∉ ids)
    (acc : RoomMap × Conns) :
    (ids.foldl (sweepRoom now) acc).1.lookup roomId = acc.1.lookup roomId := by
  induction ids generalizing acc with
  | nil => rfl
  | cons rid ids ih =>
      rw [List.mem_cons, not_or] at hid
      rw [List.foldl_cons, ih hid.2, sweepRoom_lookup_ne now acc hid.1]

/-- What a sweep leaves of a room: the peers that were kept when the sweep came to it. -/
theorem foldl_sweepRoom_eq (now : Nat) {ids : List Text} (hids : ids.Nodup) (roomId : Text)
    (acc : RoomMap × Conns) :
    (ids.foldl (sweepRoom now) acc).1.lookup roomId = acc.1.lookup roomId ∨
      ∃ conns, (ids.foldl (sweepRoom now) acc).1.lookup roomId =
        (acc.1.lookup roomId).bind fun room =>
          keepRoom room (retainAlive (youngAt now) room.peers conns).1 := by
  induction ids generalizing acc with
  | nil => exact Or.inl rfl
  | cons rid ids ih =>
      rw [List.nodup_cons] at hids
      rw [List.foldl_cons]
      by_cases heq : roomId = rid
      · subst heq
        -- the keys are distinct, so the rest of the sweep does not come back to this room:
        rw [foldl_sweepRoom_lookup now hids.1, sweepRoom_lookup]
        exact Or.inr ⟨_, rfl⟩
      · rw [← sweepRoom_lookup_ne now acc heq]
        exact ih hids.2 (sweepRoom now acc rid)

/-- A room after a sweep has some of its peers, and at least one. -/
theorem sweep_lookup {s : State} {roomId : Text} {room' : Room}
    (h : (sweep s).rooms.lookup roomId = some room') :
    ∃ room, s.rooms.lookup roomId = some room ∧
      (room' = room ∨ ∃ peers, peers.Sublist room.peers ∧ peers ≠ [] ∧
        room' = { room with peers := peers }) := by
  have hnodup : s.rooms.keys.Nodup := s.rooms.nodupKeys
  rcases foldl_sweepRoom_eq s.now hnodup roomId (s.rooms, s.conns) with heq | ⟨conns, heq⟩
  · exact ⟨room', heq.symm.trans h, Or.inl rfl⟩
  · have hroom := heq.symm.trans h
    rw [Option.bind_eq_some_iff] at hroom
    obtain ⟨room, hroom, hkeep⟩ := hroom
    obtain ⟨rfl, hne⟩ := keepRoom_eq_some hkeep
    exact ⟨room, hroom, Or.inr ⟨_, retainAlive_sublist _ _ _, hne, rfl⟩⟩

/-! ## What a join does -/

/-- The least active peer is one with the least activity, and the others stay in order. -/
theorem takeLeastActive_spec {peers rest : List Peer} {p : Peer}
    (h : takeLeastActive peers = some (p, rest)) :
    (∃ front back, peers = front ++ p :: back ∧ rest = front ++ back) ∧
      ∀ q ∈ peers, p.lastActivity ≤ q.lastActivity := by
  induction peers generalizing p rest with
  | nil => cases h
  | cons q ps ih =>
      rw [takeLeastActive] at h
      cases hps : takeLeastActive ps with
      | none =>
          rw [hps] at h
          cases h
          -- without a least peer behind it the head stands alone:
          have hnil : ps = [] := by
            by_contra hne
            have hsome := takeLeastActive_isSome hne
            rw [hps] at hsome
            cases hsome
          subst hnil
          exact ⟨⟨[], [], rfl, rfl⟩, by simp⟩
      | some found =>
          obtain ⟨r, rest'⟩ := found
          rw [hps] at h
          dsimp only at h
          obtain ⟨⟨front, back, hfront, hrest⟩, hleast⟩ := ih hps
          split at h
          · -- the head is less active than the one found behind it
            rename_i hle
            cases h
            refine ⟨⟨[], ps, rfl, rfl⟩, fun x hx => ?_⟩
            rcases List.mem_cons.1 hx with rfl | hx
            · exact Nat.le_refl _
            · exact hle.trans (hleast x hx)
          -- the one found behind it stays the least:
          · rename_i hlt
            cases h
            refine ⟨⟨q :: front, back, by rw [hfront]; rfl, by rw [hrest]; rfl⟩, fun x hx => ?_⟩
            rcases List.mem_cons.1 hx with rfl | hx
            · omega
            · exact hleast x hx

/-- The peers of the entered room that the ping filter keeps. -/
def pinged (s : State) (c : ConnId) : List Peer :=
  (retainAlive (fun _ => true) (entering s c).peers s.conns).1

/-- Nobody is evicted for the capacity, or one peer out of two or more is, which has the least
activity. -/
def EvictsLeast (peers survivors : List Peer) : Prop :=
  survivors = peers ∨ 2 ≤ peers.length ∧ ∃ front evicted back, peers = front ++ evicted :: back ∧
    survivors = front ++ back ∧ ∀ q ∈ peers, evicted.lastActivity ≤ q.lastActivity

theorem makeRoom_evictsLeast (c : ConnId) (peers : List Peer) (conns : Conns) :
    EvictsLeast peers (makeRoom c peers conns).1 := by
  rw [makeRoom]
  split
  · rename_i hfull
    cases hleast : takeLeastActive peers with
    | none => exact Or.inl rfl
    | some found =>
        obtain ⟨⟨front, back, heq, hrest⟩, hmin⟩ := takeLeastActive_spec hleast
        exact Or.inr ⟨hfull, front, found.1, back, heq, hrest, hmin⟩
  · exact Or.inl rfl

/-- What a join of `c` leaves in the room map: the new peer, the peers that pass the ping filter but
for one evicted peer at most, and the other rooms as they were. -/
structure Joined (s : State) (c : ConnId) (m : State) : Prop where
  room : ∃ room peer survivors, m.rooms.lookup (s.conns c).roomId = some room ∧
    room.peers = survivors ++ [peer] ∧ EvictsLeast (pinged s c) survivors ∧
    peer.tx = c ∧ peer.id = (m.conns c).peerId ∧ peer.authToken = (m.conns c).authToken
  filtered : (pinged s c).Sublist (entering s c).peers
  others : ∀ roomId, roomId ≠ (s.conns c).roomId → m.rooms.lookup roomId = s.rooms.lookup roomId

theorem register_joined (s : State) (c : ConnId) (token : Bytes) :
    Joined s c (register s c token) where
  room := by
    refine ⟨_, _, _, AList.lookup_insert _, rfl, makeRoom_evictsLeast c (pinged s c) _, rfl, ?_, ?_⟩
    · simp [register]
    · simp [register]
  filtered := retainAlive_sublist _ _ _
  others _ hne := AList.lookup_insert_ne hne

/-! ## The invariant -/

/-- A room lost some of its peers, but not all. -/
structure Thinned (room room' : Room) : Prop where
  counter : room'.nextId = room.nextId
  peers : room'.outline.2.Sublist room.outline.2
  occupied : room.peers ≠ [] → room'.peers ≠ []

theorem thinned_of_outline {room room' : Room} (h : room'.outline = room.outline) :
    Thinned room room' where
  counter := congrArg Prod.fst h
  peers := by rw [h]
  occupied hne hnil := by
    have hpeers : room'.outline.2 = room.outline.2 := congrArg Prod.snd h
    rw [Room.outline, hnil, Room.outline] at hpeers
    exact hne (List.map_eq_nil_iff.1 hpeers.symm)

theorem thinned_of_sublist {room : Room} {peers : List Peer} (h : peers.Sublist room.peers)
    (hne : peers ≠ []) : Thinned room { room with peers := peers } where
  counter := rfl
  peers := h.map _
  occupied _ := hne

/-- A step that is no join leaves rooms that were there, thinned at most. -/
theorem step_thinned {J : SerdeJson} {s m : State} {e : Event} (h : step J s e = some m)
    (he : ∀ c token, e ≠ .register c token) {roomId : Text} {room' : Room}
    (hroom' : m.rooms.lookup roomId = some room') :
    ∃ room, s.rooms.lookup roomId = some room ∧ Thinned room room' := by
  by_cases hedits : e.editsRooms = true
  · cases e with
    | register c token => exact absurd rfl (he c token)
    | cleanup c =>
        obtain ⟨-, rfl⟩ := of_guard h
        rw [cleanup_lookup] at hroom'
        split at hroom'
        · rw [Option.bind_eq_some_iff] at hroom'
          obtain ⟨room, hroom, hkeep⟩ := hroom'
          obtain ⟨rfl, hne⟩ := keepRoom_eq_some hkeep
          exact ⟨room, hroom, thinned_of_sublist List.filter_sublist hne⟩
        · exact ⟨room', hroom', thinned_of_outline rfl⟩
    | sweep =>
        obtain rfl := Option.some.inj h
        obtain ⟨room, hroom, rfl | ⟨peers, hsub, hne, rfl⟩⟩ := sweep_lookup hroom'
        · exact ⟨_, hroom, thinned_of_outline rfl⟩
        · exact ⟨room, hroom, thinned_of_sublist hsub hne⟩
    | _ => cases hedits
  · have hout := step_outline h (Bool.eq_false_iff.2 hedits) roomId
    rw [outlineAt, hroom', outlineAt] at hout
    obtain ⟨room, hroom, heq⟩ := Option.map_eq_some_iff.1 hout.symm
    exact ⟨room, hroom, thinned_of_outline heq.symm⟩

/-- Every room in the map has one or two peers. -/
def Occupied (s : State) : Prop :=
  ∀ roomId room, s.rooms.lookup roomId = some room → 1 ≤ room.peers.length ∧ room.peers.length ≤ 2

/-- The ids of a room are distinct and below its counter. -/
def Numbered (s : State) : Prop :=
  ∀ roomId room, s.rooms.lookup roomId = some room →
    (room.peers.map Peer.id).Nodup ∧ ∀ p ∈ room.peers, p.id < room.nextId

/-- The condition on a step: no join finds the counter of its room at the last value of a `u64`. -/
def CounterLeft (s : State) : Event → Prop
  | .register c _ => (entering s c).nextId + 1 < 2 ^ 64
  | _ => True

theorem Thinned.length_le {room room' : Room} (h : Thinned room room') :
    room'.peers.length ≤ room.peers.length := by
  simpa [Room.outline] using h.peers.length_le

theorem Thinned.ids {room room' : Room} (h : Thinned room room') :
    (room'.peers.map Peer.id).Sublist (room.peers.map Peer.id) := by
  simpa [Room.outline, List.map_map, Function.comp_def] using h.peers.map Prod.fst

theorem occupied_step {J : SerdeJson} {s m : State} {e : Event} (h : step J s e = some m)
    (hs : Occupied s) : Occupied m := by
  intro roomId room' hroom'
  rcases register_or_quiet h with ⟨c, token, -, -, rfl⟩ | ⟨he, -⟩
  · obtain ⟨kept, -, hlen, hself, hother⟩ := register_lookup s c token
    by_cases hid : roomId = (s.conns c).roomId
    · subst hid
      have hentering : (entering s c).peers.length ≤ 2 := by
        rw [entering]
        cases hroom : s.rooms.lookup (s.conns c).roomId with
        | none => simp [Room.new]
        | some room => exact (hs _ room hroom).2
      -- of two peers at most one is left, so the new one makes two:
      have hone := hlen hentering
      rw [hself] at hroom'
      obtain rfl := Option.some.inj hroom'
      simp only [Room.addPeer, List.length_append, List.length_singleton]
      omega
    · rw [hother roomId hid] at hroom'
      exact hs roomId room' hroom'
  · obtain ⟨room, hroom, hthin⟩ := step_thinned h he hroom'
    obtain ⟨hone, htwo⟩ := hs roomId room hroom
    refine ⟨?_, hthin.length_le.trans htwo⟩
    exact List.length_pos_of_ne_nil (hthin.occupied (List.ne_nil_of_length_pos hone))

/-- A join keeps the numbering exactly when it does not find the counter at its last value. -/
theorem numbered_register {s : State} {c : ConnId} {token : Bytes} (hs : Numbered s) :
    Numbered (register s c token) ↔ CounterLeft s (.register c token) := by
  obtain ⟨kept, hsub, -, hself, hother⟩ := register_lookup s c token
  -- a room that is created by the join is numbered as well:
  have hentering : ((entering s c).peers.map Peer.id).Nodup ∧
      ∀ p ∈ (entering s c).peers, p.id < (entering s c).nextId := by
    rw [entering]
    cases hroom : s.rooms.lookup (s.conns c).roomId with
    | none => simp [Room.new]
    | some room => exact hs _ room hroom
  constructor
  · intro hm
    -- the new peer has the id that the counter had
    have hnew := (hm _ _ hself).2 _ (List.mem_append_right _ (List.mem_singleton_self _))
    simp only [Room.addPeer] at hnew
    have hmod := Nat.mod_lt ((entering s c).nextId + 1) (Nat.two_pow_pos 64)
    have hle := Nat.mod_le ((entering s c).nextId + 1) (2 ^ 64)
    rw [CounterLeft]
    omega
  · intro hleft roomId room hroom
    rw [CounterLeft] at hleft
    by_cases hid : roomId = (s.conns c).roomId
    · subst hid
      rw [hself] at hroom
      obtain rfl := Option.some.inj hroom
      -- the counter gives an id above all others:
      have hbelow : ∀ p ∈ kept, p.id < (entering s c).nextId := fun p hp =>
        hentering.2 p (hsub.subset hp)
      simp only [Room.addPeer, Nat.mod_eq_of_lt hleft]
      refine ⟨?_, fun p hp => ?_⟩
      · rw [List.map_append, List.nodup_append]
        refine ⟨hentering.1.sublist (hsub.map _), List.nodup_singleton _, ?_⟩
        intro x hx y hy heq
        obtain ⟨p, hp, rfl⟩ := List.mem_map.1 hx
        obtain rfl := List.mem_singleton.1 hy
        exact absurd heq (hbelow p hp).ne
      · rcases List.mem_append.1 hp with hp | hp
        · have hlt := hbelow p hp
          omega
        · obtain rfl := List.mem_singleton.1 hp
          exact Nat.lt_succ_self _
    · rw [hother roomId hid] at hroom
      exact hs roomId room hroom

theorem numbered_step {J : SerdeJson} {s m : State} {e : Event} (h : step J s e = some m)
    (hs : Numbered s) : Numbered m ↔ CounterLeft s e := by
  rcases register_or_quiet h with ⟨c, token, rfl, -, rfl⟩ | ⟨he, -⟩
  · exact numbered_register hs
  · refine ⟨fun _ => ?_, fun _ roomId room' hroom' => ?_⟩
    · cases e with
      | register c token => exact absurd rfl (he c token)
      | _ => trivial
    · obtain ⟨room, hroom, hthin⟩ := step_thinned h he hroom'
      obtain ⟨hnodup, hbelow⟩ := hs roomId room hroom
      refine ⟨hnodup.sublist hthin.ids, fun p hp => ?_⟩
      -- a peer of the thinned room has the id of one that was there:
      obtain ⟨q, hq, hid⟩ := List.mem_map.1 (hthin.ids.subset (List.mem_map_of_mem hp))
      rw [hthin.counter, ← hid]
      exact hbelow q hq

/-! ## Runs -/

/-- Every join from the state is one that `Joined` describes. -/
def JoinsWell (J : SerdeJson) (s : State) : Prop :=
  ∀ c token m, step J s (.register c token) = some m → Joined s c m

/-- In every run, every room in the map has one or two peers and every join adds its peer, evicts one
least active peer at most for the capacity, and leaves the rest; and the runs in which the ids are
distinct and below the counter are those in which no join finds the counter at its last value. -/
theorem roomMap_invariant (J : SerdeJson) (es : List Event) :
    Along (stepRel (step J)) (fun s => Occupied s ∧ JoinsWell J s) .start es ∧
      (Along (stepRel (step J)) Numbered .start es ↔
        Guarded (stepRel (step J)) CounterLeft .start es) := by
  have hempty : ∀ roomId room, State.start.rooms.lookup roomId ≠ some room := by
    intro roomId room h
    rw [lookup_start] at h
    cases h
  constructor
  · apply along_of_invariant (I := Occupied)
    · intro s e m hs h
      exact occupied_step h hs
    · intro s hs
      refine ⟨hs, fun c token m h => ?_⟩
      obtain ⟨-, rfl⟩ := of_guard h
      exact register_joined s c token
    · intro roomId room h
      exact absurd h (hempty roomId room)
  · apply along_iff_guarded (I := fun _ => True)
    · intro s e m _ _
      trivial
    · intro s e m _ hs h
      exact numbered_step h hs
    · trivial
    · intro roomId room h
      exact absurd h (hempty roomId room)

/-! ## A counter that starts over -/

/-- The connections below `n` join the room `r` one after the other, and none of them leaves. -/
def joinsBelow : Nat → List Event
  | 0 => []
  | n + 1 => joinsBelow n ++ [.first n (some (joinJson ['r']).encode), .register n []]

/-- The state after `n` joins: the later connections are new, the counter of the room has counted the
joins, and the last peer is in the room. -/
structure AfterJoins (n : Nat) (s : State) : Prop where
  fresh : ∀ c, n ≤ c → (s.conns c).pc = .accepted
  counter : ((s.rooms.lookup ['r']).getD Room.new).nextId = n % 2 ^ 64
  newest : n ≠ 0 → ∃ room, s.rooms.lookup ['r'] = some room ∧ ∃ p ∈ room.peers, p.id = (n - 1) % 2 ^ 64

theorem afterJoins_succ {s : State} {n : Nat} (hs : AfterJoins n s) :
    ∃ t, Run (stepRel (step (.knowing [joinJson ['r']]))) s
        [.first n (some (joinJson ['r']).encode), .register n []] t ∧ AfterJoins (n + 1) t := by
  -- the join text is evaluated once, for every `n`:
  have hjoin : readJoin (.knowing [joinJson ['r']]) (joinJson ['r']).encode = some ['r'] := by
    decide +kernel
  have hfirst : step (.knowing [joinJson ['r']]) s (.first n (some (joinJson ['r']).encode)) =
      some (s.setConn n { s.conns n with pc := .joining, roomId := ['r'] }) := by
    rw [step, if_pos (hs.fresh n (Nat.le_refl n)), first, Option.bind_some, hjoin]
  generalize hm : s.setConn n { s.conns n with pc := .joining, roomId := ['r'] } = m at hfirst
  have hconn : m.conns n = { s.conns n with pc := .joining, roomId := ['r'] } := by
    rw [← hm]
    exact Function.update_self _ _ _
  have hroom : (m.conns n).roomId = ['r'] := by rw [hconn]
  have hpc : (m.conns n).pc = .joining := by rw [hconn]
  have hregister : step (.knowing [joinJson ['r']]) m (.register n []) = some (register m n []) := by
    rw [step, if_pos hpc]
  refine ⟨register m n [], Run.cons hfirst (Run.cons hregister (Run.nil _)), ?_⟩
  have hcounter : (entering m n).nextId = n % 2 ^ 64 := by
    rw [entering, hroom, ← hm]
    exact hs.counter
  obtain ⟨kept, -, -, hself, -⟩ := register_lookup m n []
  rw [hroom] at hself
  refine ⟨?_, ?_, ?_⟩
  · intro c hc
    have hne : c ≠ n := by omega
    rw [(register_conns_ne [] hne).1, ← hm]
    simp only [State.setConn, Function.update_of_ne hne]
    exact hs.fresh c (by omega)
  · rw [hself]
    simp only [Option.getD_some, Room.addPeer, hcounter]
    omega
  · intro _
    exact ⟨_, hself, _, List.mem_append_right _ (List.mem_singleton_self _), hcounter⟩

theorem exists_afterJoins (n : Nat) :
    ∃ s, Run (stepRel (step (.knowing [joinJson ['r']]))) .start (joinsBelow n) s ∧
      AfterJoins n s := by
  induction n with
  | zero =>
      refine ⟨_, Run.nil _, fun c _ => rfl, ?_, fun h => absurd rfl h⟩
      rw [lookup_start]
      rfl
  | succ n ih =>
      obtain ⟨s, hrun, hs⟩ := ih
      obtain ⟨t, hjoin, ht⟩ := afterJoins_succ hs
      exact ⟨t, hrun.append hjoin, ht⟩

/-- After `2 ^ 64` joins of one room, its counter stands at zero and a peer with the last id is in the
room. -/
theorem counter_starts_over :
    ∃ s, Run (stepRel (step (.knowing [joinJson ['r']]))) .start (joinsBelow (2 ^ 64)) s ∧
      ¬ Numbered s := by
  obtain ⟨s, hrun, hs⟩ := exists_afterJoins (2 ^ 64)
  refine ⟨s, hrun, fun hnum => ?_⟩
  -- a peer is in the room, and no id is below zero:
  obtain ⟨room, hroom, p, hp, -⟩ := hs.newest (Nat.two_pow_pos 64).ne'
  have hbelow := (hnum _ room hroom).2 p hp
  have hzero := hs.counter
  rw [hroom, Option.getD_some, Nat.mod_self] at hzero
  omega

end Ktty.Relay
