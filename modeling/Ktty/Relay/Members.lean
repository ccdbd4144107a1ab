import Ktty.Relay.RoomMap

/-!
# Members

A connection is a member of its room as long as its entry is there (`Present`). `Removes` says which
steps take the entry of a connection out: a join or a sweep that finds its channel full or closed, the
eviction of the least active peer, the sweep of a silent peer, and a cleanup under its id. Every other
step leaves it (`present_step`).

The relay checks the token of a text in one critical section and forwards in another one, and it does
not check binary messages. `Authorized` says that what is forwarded to another peer is a text of a
member with the member's own token. It holds in the runs in which no binary message is forwarded, no
entry is removed between the check and the forwarding, and the check only finds the connection's own
entry (`authorized_of_spared`).
-/

set_option autoImplicit false

namespace Ktty.Relay

open Ktty.Wire Ktty.Lib.Execution

/-! ## Entries -/

/-- The entries of the rooms are those of different connections and carry their tokens. -/
structure Members (s : State) : Prop where
  entries : Entries s
  distinct : ∀ roomId room, s.rooms.lookup roomId = some room → (room.peers.map Peer.tx).Nodup
  token : ∀ roomId room, s.rooms.lookup roomId = some room →
    ∀ p ∈ room.peers, p.authToken = (s.conns p.tx).authToken

theorem Thinned.channels {room room' : Room} (h : Thinned room room') :
    (room'.peers.map Peer.tx).Sublist (room.peers.map Peer.tx) := by
  simpa [Room.outline, List.map_map, Function.comp_def] using h.peers.map fun x => x.2.1

theorem Thinned.mem {room room' : Room} (h : Thinned room room') {p' : Peer} (hp : p' ∈ room'.peers) :
    ∃ p ∈ room.peers, p.id = p'.id ∧ p.tx = p'.tx ∧ p.authToken = p'.authToken := by
  have hmem := h.peers.subset (List.mem_map_of_mem hp (f := fun p => (p.id, p.tx, p.authToken)))
  obtain ⟨p, hp, heq⟩ := List.mem_map.1 hmem
  simp only [Prod.mk.injEq] at heq
  exact ⟨p, hp, heq⟩

theorem members_register {s : State} {c : ConnId} {token : Bytes} (hpc : (s.conns c).pc = .joining)
    (hs : Members s) : Members (register s c token) := by
  obtain ⟨kept, conns', hsub, -, hpost, heq⟩ := register_eq s c token
  have hself : (register s c token).rooms.lookup (s.conns c).roomId =
      some (Room.addPeer { entering s c with peers := kept } c s.now token) := by
    rw [heq]
    exact AList.lookup_insert _
  have hlookup : ∀ roomId, roomId ≠ (s.conns c).roomId →
      (register s c token).rooms.lookup roomId = s.rooms.lookup roomId := by
    intro roomId hne
    rw [heq]
    exact AList.lookup_insert_ne hne
  -- the entries that were there are not those of `c`
  have hold : ∀ roomId room, s.rooms.lookup roomId = some room → ∀ p ∈ room.peers, p.tx ≠ c ∧
      p.authToken = ((register s c token).conns p.tx).authToken := by
    intro roomId room hroom p hp
    have hne := ne_of_registered hpc (hs.entries.owner roomId room hroom p hp).1
    refine ⟨hne, ?_⟩
    rw [heq]
    simp only [Function.update_of_ne hne, hpost.authToken]
    exact hs.token roomId room hroom p hp
  refine ⟨entries_register hpc hs.entries, ?_, ?_⟩
  · intro roomId room hroom
    by_cases hid : roomId = (s.conns c).roomId
    · subst hid
      rw [hself] at hroom
      obtain rfl := Option.some.inj hroom
      rw [Room.addPeer, List.map_append, List.nodup_append]
      refine ⟨?_, List.nodup_singleton _, ?_⟩
      -- the kept entries are some of those that were there:
      · apply List.Nodup.sublist (hsub.map _)
        rw [entering]
        cases hfound : s.rooms.lookup (s.conns c).roomId with
        | none => exact List.nodup_nil
        | some room => exact hs.distinct _ room hfound
      · intro x hx y hy hxy
        obtain ⟨p, hp, rfl⟩ := List.mem_map.1 hx
        obtain rfl := List.mem_singleton.1 hy
        obtain ⟨room, hfound, hp⟩ := mem_entering (hsub.subset hp)
        exact (hold _ room hfound p hp).1 hxy
    · rw [hlookup roomId hid] at hroom
      exact hs.distinct roomId room hroom
  · intro roomId room hroom p hp
    by_cases hid : roomId = (s.conns c).roomId
    · subst hid
      rw [hself] at hroom
      obtain rfl := Option.some.inj hroom
      rcases List.mem_append.1 hp with hp | hp
      · obtain ⟨room, hfound, hp⟩ := mem_entering (hsub.subset hp)
        exact (hold _ room hfound p hp).2
      · obtain rfl := List.mem_singleton.1 hp
        rw [heq]
        simp
    · rw [hlookup roomId hid] at hroom
      exact (hold roomId room hroom p hp).2

theorem members_step {J : SerdeJson} {s m : State} {e : Event} (h : step J s e = some m)
    (hs : Members s) : Members m := by
  rcases register_or_quiet h with ⟨c, token, rfl, hpc, rfl⟩ | ⟨he, hquiet⟩
  · exact members_register hpc hs
  · refine ⟨entries_quiet hquiet hs.entries, ?_, ?_⟩
    · intro roomId room' hroom'
      obtain ⟨room, hroom, hthin⟩ := step_thinned h he hroom'
      exact (hs.distinct roomId room hroom).sublist hthin.channels
    · intro roomId room' hroom' p' hp'
      obtain ⟨room, hroom, hthin⟩ := step_thinned h he hroom'
      obtain ⟨p, hp, -, htx, htok⟩ := hthin.mem hp'
      -- the entry has kept its channel and token, and the connection its own:
      rw [hquiet.token, ← htok, ← htx]
      exact hs.token roomId room hroom p hp

theorem members_start : Members .start where
  entries := entries_start
  distinct roomId room h := by
    rw [lookup_start] at h
    cases h
  token roomId room h := by
    rw [lookup_start] at h
    cases h

/-! ## Who gets messages -/

/-- The evicted peer was in the room. -/
theorem mem_of_evictee {s : State} {c : ConnId} {p : Peer} (h : evictee s c = some p) :
    p ∈ (entering s c).peers := by
  rw [evictee] at h
  split at h
  · rw [Option.map_eq_some_iff] at h
    obtain ⟨⟨q, rest⟩, hleast, rfl⟩ := h
    exact (retainAlive_sublist _ _ _).subset (takeLeastActive_sublist hleast).2.2
  · cases h

theorem registered_of_mem {s : State} (hs : Entries s) {d : ConnId} {room : Room} {p : Peer}
    (hroom : s.room? d = some room) (hp : p ∈ others room (s.conns d).peerId) :
    s.registered p.tx = true :=
  (hs.owner _ room hroom p (List.mem_of_mem_filter hp)).1

/-- Signals go to registered handlers only. -/
theorem sends_registered {J : SerdeJson} {s m : State} {e : Event} (hs : Entries s) (h : step J s e = some m) {c : ConnId}
    {x : RelayMsg} (hx : Sends J s e c x) : s.registered c = true := by
  have toOthers : ∀ {d : ConnId} {y : RelayMsg}, ToOthers s d y c x → s.registered c = true := by
    rintro d y ⟨-, room, hroom, p, hp, rfl⟩
    exact registered_of_mem hs hroom hp
  cases e with
  | sendAuth d =>
      obtain ⟨rfl, -⟩ := hx
      rw [State.registered, (of_guard h).1]
      rfl
  | announce d => exact toOthers hx
  | cleanup d => exact toOthers hx
  | forward d =>
      obtain ⟨p, -, hto⟩ := hx
      exact toOthers hto
  | register d token =>
      obtain ⟨p, hevict, rfl, -⟩ := hx
      -- the notice of the eviction goes to a peer that was in the room:
      obtain ⟨room, hroom, hp⟩ := mem_entering (mem_of_evictee hevict)
      exact (hs.owner _ room hroom p hp).1
  | _ => exact hx.elim

/-! ## Who stays -/

/-- The channel takes a message. -/
def Conn.takes (conn : Conn) : Bool :=
  conn.rxAlive && decide (conn.queue.length < PEER_CHANNEL_CAPACITY)

theorem trySend_ok {conns : Conns} {c : ConnId} (h : (conns c).takes = true) (m : RelayMsg) :
    (trySend conns c m).2 = true := by
  rw [Conn.takes, Bool.and_eq_true, decide_eq_true_eq] at h
  rw [trySend, if_pos h]

theorem trySend_ne {conns : Conns} {a c : ConnId} (hne : a ≠ c) (m : RelayMsg) :
    (trySend conns c m).1 a = conns a := by
  rw [trySend]
  split
  · exact Function.update_of_ne hne _ _
  · rfl

theorem retainAlive_ne {young : Peer → Bool} {peers : List Peer} {conns : Conns} {a : ConnId}
    (h : ∀ p ∈ peers, p.tx ≠ a) : (retainAlive young peers conns).2 a = conns a := by
  induction peers generalizing conns with
  | nil => rfl
  | cons p ps ih =>
      have hrest : ∀ q ∈ ps, q.tx ≠ a := fun q hq => h q (List.mem_cons_of_mem _ hq)
      rw [retainAlive]
      dsimp only
      split
      · rw [ih hrest, trySend_ne (h p (List.mem_cons_self ..)).symm]
      · exact ih hrest

theorem trySend_full {conns : Conns} {c : ConnId} (h : (conns c).takes = false) (m : RelayMsg) :
    trySend conns c m = (conns, false) := by
  rw [trySend, if_neg]
  rintro ⟨hrx, hlen⟩
  rw [Conn.takes, hrx, decide_eq_true hlen] at h
  cases h

/-- The filter keeps the young peers whose channel takes the ping: the ping of one peer leaves the
channels of the others. -/
theorem retainAlive_eq_filter {young : Peer → Bool} {peers : List Peer} {conns : Conns}
    (hdistinct : (peers.map Peer.tx).Nodup) :
    (retainAlive young peers conns).1 =
      peers.filter fun p => young p && (conns p.tx).takes := by
  induction peers generalizing conns with
  | nil => rfl
  | cons q qs ih =>
      rw [List.map_cons, List.nodup_cons] at hdistinct
      -- whether or not `q` takes its ping, the others still see their channels
      have hrest : (retainAlive young qs (trySend conns q.tx .ping).1).1 =
          qs.filter fun p => young p && (conns p.tx).takes := by
        rw [ih hdistinct.2]
        apply List.filter_congr
        intro p hp
        have hne : p.tx ≠ q.tx := fun heq => hdistinct.1 (heq ▸ List.mem_map_of_mem hp)
        rw [trySend_ne hne]
      rw [retainAlive, List.filter_cons]
      dsimp only
      cases young q with
      | false => simpa using ih hdistinct.2
      | true =>
          rw [if_pos rfl, hrest, Bool.true_and]
          cases htakes : (conns q.tx).takes with
          | true => rw [trySend_ok htakes]
          | false => rw [trySend_full htakes]

/-- A young peer whose channel takes the ping is kept. -/
theorem mem_retainAlive {young : Peer → Bool} {peers : List Peer} {conns : Conns} {p : Peer}
    (hp : p ∈ peers) (hdistinct : (peers.map Peer.tx).Nodup) (hyoung : young p = true)
    (htakes : (conns p.tx).takes = true) : p ∈ (retainAlive young peers conns).1 := by
  rw [retainAlive_eq_filter hdistinct, List.mem_filter, hyoung, htakes]
  exact ⟨hp, rfl⟩

/-- What a sweep leaves of a room whose channels are in no other room. -/
theorem foldl_sweepRoom_filter {now : Nat} {ids : List Text} (hids : ids.Nodup)
    {acc : RoomMap × Conns} {roomId : Text} {room : Room} (hmem : roomId ∈ ids)
    (hroom : acc.1.lookup roomId = some room) (hdistinct : (room.peers.map Peer.tx).Nodup)
    (helsewhere : ∀ rid ∈ ids, rid ≠ roomId → ∀ r, acc.1.lookup rid = some r →
      ∀ q ∈ r.peers, ∀ p ∈ room.peers, q.tx ≠ p.tx) :
    (ids.foldl (sweepRoom now) acc).1.lookup roomId =
      keepRoom room (room.peers.filter fun p => youngAt now p && (acc.2 p.tx).takes) := by
  induction ids generalizing acc with
  | nil => cases hmem
  | cons rid ids ih =>
      rw [List.nodup_cons] at hids
      rw [List.foldl_cons]
      by_cases heq : rid = roomId
      · subst heq
        rw [foldl_sweepRoom_lookup now hids.1, sweepRoom_lookup, hroom, Option.bind_some,
          retainAlive_eq_filter hdistinct]
      · -- another room: neither the entries nor their channels are touched
        have hconns : ∀ p ∈ room.peers, (sweepRoom now acc rid).2 p.tx = acc.2 p.tx := by
          intro p hp
          rw [sweepRoom]
          cases hr : acc.1.lookup rid with
          | none => rfl
          | some r =>
              apply retainAlive_ne
              intro q hq
              exact helsewhere rid (List.mem_cons_self ..) heq r hr q hq p hp
        rw [ih hids.2]
        · congr 1
          apply List.filter_congr
          intro p hp
          rw [hconns p hp]
        · exact (List.mem_cons.1 hmem).resolve_left (Ne.symm heq)
        · rw [sweepRoom_lookup_ne now acc (Ne.symm heq), hroom]
        · intro rid' hrid' hne r hr
          -- no room comes twice in a sweep:
          have hother : rid' ≠ rid := fun h => hids.1 (h ▸ hrid')
          rw [sweepRoom_lookup_ne now acc hother] at hr
          exact helsewhere rid' (List.mem_cons_of_mem _ hrid') hne r hr

/-- What the eviction task leaves of a room: the peers that were active in the last 60 seconds and
whose channel takes the ping. -/
theorem sweep_lookup_eq {s : State} (hs : Members s) {roomId : Text} {room : Room}
    (hroom : s.rooms.lookup roomId = some room) :
    (sweep s).rooms.lookup roomId =
      keepRoom room (room.peers.filter fun p => youngAt s.now p && (s.conns p.tx).takes) := by
  have hkey : roomId ∈ s.rooms.keys := AList.lookup_isSome.1 (by rw [hroom]; rfl)
  apply foldl_sweepRoom_filter s.rooms.nodupKeys hkey hroom (hs.distinct _ room hroom)
  -- a connection has entries in its own room only
  intro rid _ hne r hr q hq p hp heq
  obtain ⟨-, hrid, -⟩ := hs.entries.owner rid r hr q hq
  obtain ⟨-, hown, -⟩ := hs.entries.owner roomId room hroom p hp
  rw [heq, hown] at hrid
  exact hne hrid.symm

/-- Who passes the ping filter and is not evicted stays in the room that `d` enters. -/
theorem mem_makeRoom {s : State} {d : ConnId} {p : Peer} (hp : p ∈ pinged s d)
    (h : ∀ q, evictee s d = some q → q ≠ p) (conns : Conns) :
    p ∈ (makeRoom d (pinged s d) conns).1 := by
  rw [makeRoom]
  split
  · rename_i hfull
    cases hleast : takeLeastActive (pinged s d) with
    | none => exact hp
    | some found =>
        obtain ⟨⟨front, back, hpinged, hrest⟩, -⟩ := takeLeastActive_spec hleast
        have hevictee : evictee s d = some found.1 := by
          rw [pinged] at hfull hleast
          rw [evictee, if_pos hfull, hleast]
          rfl
        rw [hpinged] at hp
        simp only [hrest]
        -- `p` stands before or behind the peer that goes, or it is that peer:
        rcases List.mem_append.1 hp with hp | hp
        · exact List.mem_append_left _ hp
        · rcases List.mem_cons.1 hp with rfl | hp
          · exact absurd rfl (h _ hevictee)
          · exact List.mem_append_right _ hp
  · exact hp

/-- The entry of `c` is in its room. -/
def Present (s : State) (c : ConnId) : Prop := ∃ room, s.room? c = some room ∧ ∃ p ∈ room.peers, p.tx = c

/-- The entry of `c` is there and has been silent for 60 seconds. -/
def Silent (s : State) (c : ConnId) : Prop :=
  ∃ room, s.room? c = some room ∧ ∃ p ∈ room.peers, p.tx = c ∧ youngAt s.now p = false

/-- The step takes the entry of `c` out of its room. -/
def Removes (s : State) (c : ConnId) : Event → Prop
  -- a join pings everybody in the room and evicts one peer from a full room
  | .register d _ => (s.conns d).roomId = (s.conns c).roomId ∧
      ((s.conns c).takes = false ∨ (evictee s d).map Peer.tx = some c)
  -- a cleanup goes by the id
  | .cleanup d => (s.conns d).roomId = (s.conns c).roomId ∧ (s.conns d).peerId = (s.conns c).peerId
  | .sweep => (s.conns c).takes = false ∨ Silent s c
  | _ => False

instance (s : State) (c : ConnId) : Decidable (Present s c) :=
  decidable_of_iff ((s.room? c).any fun room => room.peers.any fun p => p.tx == c) (by
    simp [Present, Option.any_eq_true])

instance (s : State) (c : ConnId) : Decidable (Silent s c) :=
  decidable_of_iff ((s.room? c).any fun room => room.peers.any fun p => p.tx == c && !youngAt s.now p)
    (by simp [Silent, Option.any_eq_true])

instance (s : State) (c : ConnId) (e : Event) : Decidable (Removes s c e) :=
  match e with
  | .register d _ => inferInstanceAs (Decidable ((s.conns d).roomId = (s.conns c).roomId ∧
      ((s.conns c).takes = false ∨ (evictee s d).map Peer.tx = some c)))
  | .cleanup _ => inferInstanceAs (Decidable (_ ∧ _))
  | .sweep => inferInstanceAs (Decidable (_ ∨ _))
  | .first _ _ | .sendAuth _ | .announce _ | .frame _ _ | .activity _ | .forward _ | .streamEnd _
  | .deliver _ | .keepalive _ | .writerEnds _ | .receive _ | .elapse _ => isFalse id

section Present

variable {s m : State} {c : ConnId}

theorem present_register {d : ConnId} {token : Bytes} (hs : Members s)
    (hpc : (s.conns d).pc = .joining) (hp : Present s c)
    (hkeep : ¬ Removes s c (.register d token)) : Present (register s d token) c := by
  obtain ⟨room, hroom, p, hp, htx⟩ := hp
  have hne : c ≠ d := by
    rw [← htx]
    exact ne_of_registered hpc (hs.entries.owner _ room hroom p hp).1
  obtain ⟨-, hroomId, -⟩ := register_conns_ne token hne
  rw [Present, State.room?, hroomId]
  by_cases hid : (s.conns d).roomId = (s.conns c).roomId
  · simp only [Removes, hid, true_and, not_or, Bool.not_eq_false] at hkeep
    obtain ⟨htakes, hevict⟩ := hkeep
    have hentering : entering s d = room := by
      rw [entering, hid, ← State.room?, hroom]
      rfl
    -- the entry passes the ping filter and is not the one evicted
    have hpinged : p ∈ pinged s d := by
      rw [pinged, hentering]
      exact mem_retainAlive hp (hs.distinct _ room hroom) rfl (by rw [htx]; exact htakes)
    have hsurvives := mem_makeRoom hpinged (fun q hq heq => hevict (by rw [hq, heq, ← htx]; rfl))
      (retainAlive (fun _ => true) (entering s d).peers s.conns).2
    have hlookup : (register s d token).rooms.lookup (s.conns c).roomId = some (Room.addPeer
        { entering s d with
          peers := (makeRoom d (pinged s d)
            (retainAlive (fun _ => true) (entering s d).peers s.conns).2).1 } d s.now token) := by
      rw [← hid]
      exact AList.lookup_insert _
    exact ⟨_, hlookup, p, List.mem_append_left _ hsurvives, htx⟩
  · obtain ⟨-, -, -, -, hother⟩ := register_lookup s d token
    rw [hother _ (Ne.symm hid)]
    exact ⟨room, hroom, p, hp, htx⟩

theorem present_cleanup {d : ConnId} (hs : Members s) (hp : Present s c)
    (hkeep : ¬ Removes s c (.cleanup d)) : Present (cleanup s d) c := by
  obtain ⟨s', heq, hspread, -⟩ := cleanup_eq s d
  have hroomId : ((cleanup s d).conns c).roomId = (s.conns c).roomId := by
    rw [heq]
    by_cases hcd : c = d
    · subst hcd
      simp [State.setPc, State.setConn, hspread.conns.roomId]
    · simp [State.setPc, State.setConn, Function.update_of_ne hcd, hspread.conns.roomId]
  obtain ⟨room, hroom, p, hp, htx⟩ := hp
  rw [Present, State.room?, hroomId, cleanup_lookup]
  split
  · rename_i hid
    -- the handler of `c` holds the id of its entry, which is not the one of `d`:
    have hid' : p.id ≠ (s.conns d).peerId := by
      obtain ⟨-, -, hown⟩ := hs.entries.owner _ room hroom p hp
      rw [htx] at hown
      exact fun h => hkeep ⟨hid.symm, h.symm.trans hown.symm⟩
    have hmem : p ∈ others room (s.conns d).peerId :=
      List.mem_filter.2 ⟨hp, by simpa using hid'⟩
    rw [← State.room?, hroom, Option.bind_some, keepRoom_of_mem hmem]
    exact ⟨_, rfl, p, hmem, htx⟩
  · exact ⟨room, hroom, p, hp, htx⟩

theorem present_sweep (hs : Members s) (hp : Present s c) (hkeep : ¬ Removes s c .sweep) :
    Present (sweep s) c := by
  obtain ⟨room, hroom, p, hp, htx⟩ := hp
  simp only [Removes, not_or, Bool.not_eq_false] at hkeep
  have hyoung : youngAt s.now p = true := by
    by_contra h
    exact hkeep.2 ⟨room, hroom, p, hp, htx, by simpa using h⟩
  have hkept : p ∈ room.peers.filter fun p => youngAt s.now p && (s.conns p.tx).takes := by
    rw [List.mem_filter, hyoung, htx, hkeep.1]
    exact ⟨hp, rfl⟩
  refine ⟨{ room with peers := _ }, ?_, p, hkept, htx⟩
  rw [State.room?, (sweep_spec s).2.roomId, sweep_lookup_eq hs hroom]
  exact keepRoom_of_mem hkept

/-- A step that does not remove the entry of `c` keeps it. -/
theorem present_step {J : SerdeJson} {e : Event} (hs : Members s) (h : step J s e = some m)
    (hp : Present s c) (hkeep : ¬ Removes s c e) : Present m c := by
  by_cases hedits : e.editsRooms = true
  · cases e with
    | register d token =>
        obtain ⟨hpc, rfl⟩ := of_guard h
        exact present_register hs hpc hp hkeep
    | cleanup d =>
        obtain ⟨-, rfl⟩ := of_guard h
        exact present_cleanup hs hp hkeep
    | sweep =>
        obtain rfl := Option.some.inj h
        exact present_sweep hs hp hkeep
    | _ => cases hedits
  · rw [Bool.not_eq_true] at hedits
    obtain ⟨room, hroom, p, hp, htx⟩ := hp
    -- the step edits no room, so the entry is still in the outline, and `c` keeps its room id:
    have hreg : s.registered c = true := htx ▸ (hs.entries.owner _ room hroom p hp).1
    have hroomId : (m.conns c).roomId = (s.conns c).roomId := by
      rcases register_or_quiet h with ⟨d, token, rfl, -, -⟩ | ⟨-, hquiet⟩
      · cases hedits
      · exact (hquiet.settled c (Pc.ne_accepted_of_hasEntered (Pc.hasEntered_of_isRegistered hreg))).2
    have hout := step_outline h hedits (s.conns c).roomId
    rw [outlineAt, outlineAt, ← State.room?, hroom] at hout
    obtain ⟨room', hroom', houtline⟩ := Option.map_eq_some_iff.1 hout
    obtain ⟨p', hp', -, htx', -⟩ := (thinned_of_outline houtline.symm).mem hp
    refine ⟨room', ?_, p', hp', htx'.trans htx⟩
    rw [State.room?, hroomId]
    exact hroom'

end Present

/-! ## Where the handlers go -/

/-- A text in the read loop passes the checks. -/
def passes (J : SerdeJson) (s : State) (c : ConnId) (t : Text) : Bool :=
  decide (byteLen t ≤ MAX_TEXT_FRAME_BYTES) && (J.fromStr t).any (tokenOk s c)

/-- The handler that an event moves, with the place it goes to. -/
def nextPc (J : SerdeJson) (s : State) : Event → Option (ConnId × Pc)
  | .first c t => some (c, if (t.bind (readJoin J)).isSome then .joining else .done)
  | .register c _ => some (c, .entered)
  | .sendAuth c => some (c, .announcing)
  | .announce c => some (c, .reading)
  | .frame c .close => some (c, .closing)
  | .frame c (.ping _) => some (c, .ponged)
  | .frame c .pong => some (c, .reading)
  | .frame c (.binary d) => some (c, .forwarding (.binary d))
  | .frame c (.text t) => some (c, if passes J s c t then .forwarding (.text t) else .reading)
  | .activity c => some (c, .reading)
  | .forward c => some (c, .reading)
  | .streamEnd c => some (c, .closing)
  | .cleanup c => some (c, .done)
  | _ => none

/-- Where a handler is after it was moved, and where the others are. -/
theorem Spreads.setPc_pc {A : ConnId → RelayMsg → Prop} {s s' : State} (h : Spreads A s s')
    (c : ConnId) (pc : Pc) (a : ConnId) :
    ((s'.setPc c pc).conns a).pc = if a = c then pc else (s.conns a).pc := by
  by_cases hac : a = c
  · subst hac
    simp [State.setPc, State.setConn]
  · simp [State.setPc, State.setConn, hac, h.conns.pc]

/-- Writing a connection without moving its handler moves none. -/
theorem setConn_pc {s : State} (a c : ConnId) {conn : Conn} (h : conn.pc = (s.conns c).pc) :
    ((s.setConn c conn).conns a).pc = (s.conns a).pc := by
  by_cases hac : a = c
  · subst hac
    simp [State.setConn, h]
  · simp [State.setConn, hac]

/-- A frame moves its handler, and no other one. -/
theorem readFrame_pc (J : SerdeJson) {s : State} {c : ConnId} (hpc : (s.conns c).pc = .reading)
    (f : Frame) (a : ConnId) :
    ((readFrame J s c f).conns a).pc =
      match nextPc J s (.frame c f) with
      | some (d, pc) => if a = d then pc else (s.conns a).pc
      | none => (s.conns a).pc := by
  have same : Spreads (fun _ _ => True) s s := Spreads.refl _ s
  have stays : (s.conns a).pc = if a = c then .reading else (s.conns a).pc := by
    split
    · subst_vars
      exact hpc
    · rfl
  cases f with
  | close => exact same.setPc_pc c _ a
  | binary d => exact same.setPc_pc c _ a
  | pong =>
      rw [readFrame, (updateActivity_spreads (fun _ _ => True) s c).conns.pc]
      exact stays
  | ping d =>
      rw [readFrame, answerPing]
      cases s.ownPeer? c with
      | none => exact same.setPc_pc c _ a
      | some peer =>
          have hpong : Spreads _ s { s with conns := (trySend s.conns peer.tx (.pong d)).1 } :=
            ⟨Shrunk.refl _, trySend_posted _ _ _⟩
          exact hpong.setPc_pc c _ a
  | text t =>
      rw [readFrame, nextPc, passes]
      split
      · -- the text is too long
        rename_i hlong
        rw [decide_eq_false (by omega), Bool.false_and]
        exact stays
      · rename_i hshort
        rw [decide_eq_true (by omega), Bool.true_and]
        cases J.fromStr t with
        | none => exact stays
        | some val =>
            rw [Option.any_some]
            dsimp only
            split
            · exact same.setPc_pc c _ a
            · exact stays

/-- An event moves its handler, and no other one. -/
theorem step_pc {J : SerdeJson} {s m : State} {e : Event} (h : step J s e = some m) (a : ConnId) :
    (m.conns a).pc =
      match nextPc J s e with
      | some (c, pc) => if a = c then pc else (s.conns a).pc
      | none => (s.conns a).pc := by
  have same : Spreads (fun _ _ => True) s s := Spreads.refl _ s
  cases e with
  | first c t =>
      obtain ⟨-, rfl⟩ := of_guard h
      rw [nextPc, first]
      cases t.bind (readJoin J) with
      | some roomId =>
          by_cases hac : a = c
          · subst hac
            simp [State.setConn]
          · simp [State.setConn, hac]
      | none => exact same.setPc_pc c .done a
  | register c token =>
      obtain ⟨-, rfl⟩ := of_guard h
      by_cases hac : a = c
      · subst hac
        simp [nextPc, register_conns_self]
      · simp [nextPc, hac, register_conns_ne token hac]
  | sendAuth c =>
      obtain ⟨-, rfl⟩ := of_guard h
      obtain ⟨s', heq, hspread⟩ := sendAuth_eq s c
      rw [heq]
      exact hspread.setPc_pc c _ a
  | announce c =>
      obtain ⟨-, rfl⟩ := of_guard h
      obtain ⟨s', heq, hspread⟩ := announce_eq s c
      rw [heq]
      exact hspread.setPc_pc c _ a
  | frame c f =>
      obtain ⟨hpc, rfl⟩ := of_guard h
      exact readFrame_pc J hpc f a
  | activity c =>
      obtain ⟨-, rfl⟩ := of_guard h
      exact (updateActivity_spreads (fun _ _ => True) s c).setPc_pc c _ a
  | forward c =>
      obtain ⟨p, -, rfl⟩ := forward_of_step h
      obtain ⟨s', heq, hspread⟩ := forward_eq J s c p
      rw [heq]
      exact hspread.setPc_pc c _ a
  | streamEnd c =>
      obtain ⟨-, rfl⟩ := of_guard h
      exact same.setPc_pc c _ a
  | cleanup c =>
      obtain ⟨-, rfl⟩ := of_guard h
      obtain ⟨s', heq, hspread, -⟩ := cleanup_eq s c
      rw [heq]
      exact hspread.setPc_pc c _ a
  | deliver c =>
      obtain ⟨x, xs, -, rfl⟩ := deliver_eq h
      exact setConn_pc a c rfl
  | keepalive c =>
      obtain ⟨-, rfl⟩ := of_guard h
      exact setConn_pc a c rfl
  | writerEnds c =>
      obtain ⟨-, rfl⟩ := of_guard h
      exact setConn_pc a c rfl
  | receive c =>
      obtain ⟨x, xs, -, rfl⟩ := receive_of_step h
      exact setConn_pc a c rfl
  | sweep =>
      obtain rfl := Option.some.inj h
      exact (sweep_spec s).2.pc a
  | elapse d =>
      obtain rfl := Option.some.inj h
      rfl

/-- A handler comes to forward a text only by reading it, when it passes the check. -/
theorem forwarding_step {J : SerdeJson} {s m : State} {e : Event} {c : ConnId} {t : Text}
    (h : step J s e = some m) (hpc : (m.conns c).pc = .forwarding (.text t)) :
    (s.conns c).pc = .forwarding (.text t) ∨ e = .frame c (.text t) ∧ passes J s c t = true := by
  have hnext := step_pc h c
  rw [hpc] at hnext
  cases e with
  | frame d f =>
      by_cases hcd : c = d
      · subst hcd
        cases f with
        | text t' =>
            simp only [nextPc, if_true] at hnext
            split at hnext
            · rename_i hpass
              cases hnext
              exact Or.inr ⟨rfl, hpass⟩
            · cases hnext
        | _ => simp [nextPc] at hnext
      · left
        cases f <;> simpa [nextPc, hcd] using hnext.symm
  | first d t' =>
      simp only [nextPc] at hnext
      split at hnext
      · split at hnext <;> cases hnext
      · exact Or.inl hnext.symm
  | _ =>
      simp only [nextPc] at hnext
      -- the other events go somewhere else, or move another handler:
      first
        | exact Or.inl hnext.symm
        | split at hnext
          · cases hnext
          · exact Or.inl hnext.symm

/-! ## Forwarding -/

/-- The code reads `token` from the text. -/
def Carries (J : SerdeJson) (t token : Text) : Prop :=
  ∃ val, J.fromStr t = some val ∧ ((val.get? "auth").bind Json.asStr).getD [] = token

/-- What a step forwards to another peer is a text of a member, with the token issued to it. -/
def Authorized (J : SerdeJson) (s : State) : Event → Prop
  | .forward c => ∀ p, (s.conns c).pc = .forwarding p → ∀ room, s.room? c = some room →
      others room (s.conns c).peerId ≠ [] →
      Present s c ∧ ∃ t, p = .text t ∧ Carries J t (s.conns c).authToken
  | _ => True

def Pc.isForwarding : Pc → Bool
  | .forwarding _ => true
  | _ => false

/-- The step removes no entry whose handler is about to forward. -/
def SparesForwarding (s : State) (e : Event) : Prop :=
  ∀ roomId room, s.rooms.lookup roomId = some room → ∀ p ∈ room.peers,
    (s.conns p.tx).pc.isForwarding = true → ¬ Removes s p.tx e

instance (s : State) (e : Event) : Decidable (SparesForwarding s e) :=
  decidable_of_iff (s.rooms.keys.all fun roomId => (s.rooms.lookup roomId).all fun room =>
      room.peers.all fun p => !(s.conns p.tx).pc.isForwarding || !decide (Removes s p.tx e)) (by
    simp only [SparesForwarding, List.all_eq_true, Option.all_eq_true, Bool.or_eq_true,
      Bool.not_eq_true', decide_eq_false_iff_not]
    constructor
    · intro h roomId room hroom p hp hpc
      have hmem : roomId ∈ s.rooms := AList.lookup_isSome.1 (by rw [hroom]; rfl)
      rcases h roomId hmem room hroom p hp with hno | hkeep
      · rw [hpc] at hno
        cases hno
      · exact hkeep
    · intro h roomId _ room hroom p hp
      cases hpc : (s.conns p.tx).pc.isForwarding with
      | false => exact Or.inl rfl
      | true => exact Or.inr (h roomId room hroom p hp hpc))

/-- The entry that the handler of `c` finds is its own. -/
def FindsOwn (s : State) (c : ConnId) : Prop := ∀ p, s.ownPeer? c = some p → p.tx = c

/-- The handler of `c` is not about to forward a binary message to another peer. -/
def KeepsBinary (s : State) (c : ConnId) : Prop :=
  ∀ d, (s.conns c).pc = .forwarding (.binary d) →
    ∀ room, s.room? c = some room → others room (s.conns c).peerId = []

instance (s : State) (c : ConnId) : Decidable (FindsOwn s c) :=
  decidable_of_iff ((s.ownPeer? c).all fun p => p.tx == c) (by simp [FindsOwn, Option.all_eq_true])

instance (s : State) (c : ConnId) : Decidable (KeepsBinary s c) :=
  match hpc : (s.conns c).pc with
  | .forwarding (.binary _) =>
      decidable_of_iff ((s.room? c).all fun room => (others room (s.conns c).peerId).isEmpty)
        (by simp [KeepsBinary, hpc, Option.all_eq_true])
  | .accepted | .joining | .entered | .announcing | .reading | .ponged | .closing | .done
  | .forwarding (.text _) => isTrue (by simp [KeepsBinary, hpc])

/-- The condition on a step. -/
def Spared (s : State) (e : Event) : Prop :=
  SparesForwarding s e ∧
    match e with
    | .frame c (.text _) => FindsOwn s c
    | .forward c => KeepsBinary s c
    | _ => True

instance (s : State) (e : Event) : Decidable (Spared s e) :=
  match e with
  | .frame _ (.text _) => inferInstanceAs (Decidable (_ ∧ FindsOwn s _))
  | .forward _ => inferInstanceAs (Decidable (_ ∧ KeepsBinary s _))
  | .frame _ .close | .frame _ (.ping _) | .frame _ .pong | .frame _ (.binary _) | .first _ _
  | .register _ _ | .sendAuth _ | .announce _ | .activity _ | .streamEnd _ | .cleanup _ | .deliver _
  | .keepalive _ | .writerEnds _ | .receive _ | .sweep | .elapse _ =>
      inferInstanceAs (Decidable (_ ∧ True))

/-- A handler that is about to forward a text has checked it, and is still a member. -/
structure Checked (J : SerdeJson) (s : State) : Prop where
  members : Members s
  checked : ∀ c t, (s.conns c).pc = .forwarding (.text t) →
    Present s c ∧ Carries J t (s.conns c).authToken

/-- A handler keeps its token, except when it enters its room. -/
theorem authToken_step {J : SerdeJson} {s m : State} {e : Event} (h : step J s e = some m) {c : ConnId}
    (hpc : (s.conns c).pc ≠ .joining) : (m.conns c).authToken = (s.conns c).authToken := by
  rcases register_or_quiet h with ⟨d, token, rfl, hjoining, rfl⟩ | ⟨-, hquiet⟩
  · have hne : c ≠ d := by
      rintro rfl
      exact hpc hjoining
    obtain ⟨kept, conns', -, -, hpost, heq⟩ := register_eq s d token
    rw [heq]
    simp only [Function.update_of_ne hne, hpost.authToken]
  · exact hquiet.token c

/-- A text that passes the check, which finds the own entry, carries the token of a member. -/
theorem checked_of_passes {J : SerdeJson} {s : State} {c : ConnId} {t : Text} (hs : Members s)
    (hown : ∀ p, s.ownPeer? c = some p → p.tx = c) (h : passes J s c t = true) :
    Present s c ∧ Carries J t (s.conns c).authToken := by
  rw [passes, Bool.and_eq_true, Option.any_eq_true] at h
  obtain ⟨-, val, hval, htok⟩ := h
  rw [tokenOk] at htok
  cases hpeer : s.ownPeer? c with
  | none =>
      rw [hpeer] at htok
      cases htok
  | some p =>
      rw [hpeer] at htok
      have htx := hown p hpeer
      rw [State.ownPeer?, Option.bind_eq_some_iff] at hpeer
      obtain ⟨room, hroom, hfind⟩ := hpeer
      have hmem := List.mem_of_find?_eq_some hfind
      refine ⟨⟨room, hroom, p, hmem, htx⟩, val, hval, ?_⟩
      rw [← htx, ← hs.token _ room hroom p hmem]
      exact (eq_of_beq htok).symm

theorem checked_step {J : SerdeJson} {s m : State} {e : Event} (hs : Checked J s)
    (h : step J s e = some m) (hspared : Spared s e) : Checked J m := by
  obtain ⟨hspares, hframe⟩ := hspared
  refine ⟨members_step h hs.members, fun c t hpc => ?_⟩
  -- a member that the step does not remove stays one, with its token:
  have hkeeps : Present s c → Carries J t (s.conns c).authToken → ¬ Removes s c e →
      Present m c ∧ Carries J t (m.conns c).authToken := by
    intro hp hcarries hkeep
    have hjoining : (s.conns c).pc ≠ .joining := by
      obtain ⟨room, hroom, p, hp, htx⟩ := hp
      obtain ⟨hreg, -⟩ := hs.members.entries.owner _ room hroom p hp
      intro hpc
      rw [htx, State.registered, hpc] at hreg
      cases hreg
    rw [authToken_step h hjoining]
    exact ⟨present_step hs.members h hp hkeep, hcarries⟩
  rcases forwarding_step h hpc with hold | ⟨rfl, hpass⟩
  · -- checked before this step, which does not remove the entry
    obtain ⟨hp, hcarries⟩ := hs.checked c t hold
    apply hkeeps hp hcarries
    obtain ⟨room, hroom, p, hmem, htx⟩ := hp
    have hkeep := hspares _ room hroom p hmem
    rw [htx] at hkeep
    exact hkeep (by rw [hold]; rfl)
  · obtain ⟨hp, hcarries⟩ := checked_of_passes hs.members hframe hpass
    exact hkeeps hp hcarries fun hfalse => hfalse

/-- In the runs whose steps meet the condition, the relay forwards to other peers only texts of members
with their own tokens. -/
theorem authorized_of_spared (J : SerdeJson) (es : List Event)
    (h : Guarded (stepRel (step J)) Spared .start es) :
    Guarded (stepRel (step J)) (Authorized J) .start es := by
  apply guarded_of_guarded (I := Checked J) (C := Spared) _ _ _ h
  · intro s e m hs hstep hspared
    exact checked_step hs hstep hspared
  · intro s e m hs _ hspared
    cases e with
    | forward c =>
        intro p hpc room hroom hothers
        cases p with
        | text t =>
            obtain ⟨hp, hcarries⟩ := hs.checked c t hpc
            exact ⟨hp, t, rfl, hcarries⟩
        -- a binary message carries no token, so it must have nobody to go to:
        | binary d => exact absurd (hspared.2 d hpc room hroom) hothers
    | _ => trivial
  · refine ⟨members_start, fun c t hpc => ?_⟩
    cases hpc

/-! ## Three runs -/

namespace Sample

/-- A text of the connection with the token `0a`. -/
def hello : Json := .ofFields [("auth", .str "0a".toList), ("type", .str "boot".toList)]

def json : SerdeJson := .knowing [joinJson ['r'], hello]

/-- Connections 0 and 1 are in the room `r`. -/
def pair : List Event := joins 0 [10] ++ joins 1 [11]

/-- A text of connection 0 is checked, the room is swept, and the text is forwarded. -/
def checkedRun : List Event := pair ++ [.frame 0 (.text hello.encode), .sweep, .forward 0]

/-- A text of connection 0 is checked, and connection 2 joins the full room. -/
def evictedRun : List Event := pair ++ [.frame 0 (.text hello.encode)] ++ joins 2 [12]

end Sample

/-- A run in which a text is forwarded. -/
theorem authorized_checked :
    (∃ s, Run (stepRel (step Sample.json)) .start Sample.checkedRun s ∧
      (s.conns 1).queue.any (fun x => x matches .forwarded _ _) = true) ∧
    Guarded (stepRel (step Sample.json)) (Authorized Sample.json) .start Sample.checkedRun :=
  ⟨exists_run_of_exec (by decide +kernel),
    authorized_of_spared Sample.json Sample.checkedRun (guarded_of_checkAll (by decide +kernel))⟩

/-- A binary message without any token is forwarded to connection 1. -/
theorem binary_forwarded :
    ∃ s m, Run (stepRel (step Sample.json)) .start (Sample.pair ++ [.frame 0 (.binary [1])]) s ∧
      stepRel (step Sample.json) s (.forward 0) m ∧ ¬ Authorized Sample.json s (.forward 0) := by
  -- connection 1 is there to receive, and the message is not a text:
  refine ⟨_, _, run_of_exec rfl, rfl, fun h => ?_⟩
  obtain ⟨-, t, ht, -⟩ := h (.binary [1]) rfl _ rfl (by decide +kernel)
  cases ht

/-- A text is forwarded for connection 0, which was evicted after the check. -/
theorem evicted_forwarded :
    ∃ s m, Run (stepRel (step Sample.json)) .start Sample.evictedRun s ∧
      stepRel (step Sample.json) s (.forward 0) m ∧ ¬ Authorized Sample.json s (.forward 0) := by
  refine ⟨_, _, run_of_exec rfl, rfl, fun h => ?_⟩
  obtain ⟨hpresent, -⟩ := h (.text Sample.hello.encode) rfl _ rfl (by decide +kernel)
  revert hpresent
  decide +kernel

end Ktty.Relay
