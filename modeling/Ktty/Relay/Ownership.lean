import Ktty.Relay.Steps
import Ktty.Lib.Execution

/-!
# Whose entry a handler touches

A handler finds its peer entry by `(room_id, peer_id)`: for the ping reply, the activity update, the
token check, the exclusion when it forwards and the removal in its cleanup. `Owned` says that whatever
entry a handler can find in this way is the one it added itself.

The relay hands out peer ids from a counter of the room, which starts over when a room is removed and
created again. `owned_iff` shows that a run keeps `Owned` exactly when no connection enters a room under
an id that another running handler of that room id still holds.
-/

set_option autoImplicit false

namespace Ktty.Relay

open Ktty.Wire Ktty.Lib.Execution

/-- Every entry that a running handler finds under its room and peer id is its own. -/
def Owned (s : State) : Prop :=
  ∀ c, s.registered c = true → ∀ room, s.room? c = some room →
    ∀ p ∈ room.peers, p.id = (s.conns c).peerId → p.tx = c

/-- The entries of the rooms belong to running handlers, which hold their ids, and a room has two
entries at most. -/
structure Entries (s : State) : Prop where
  owner : ∀ roomId room, s.rooms.lookup roomId = some room → ∀ p ∈ room.peers,
    s.registered p.tx = true ∧ (s.conns p.tx).roomId = roomId ∧ (s.conns p.tx).peerId = p.id
  capacity : ∀ roomId room, s.rooms.lookup roomId = some room → room.peers.length ≤ 2

/-- The condition on a step: a connection enters its room under an id that no running handler of that
room id holds. -/
def FreshId (s : State) : Event → Prop
  | .register c _ => ∀ a, s.registered a = true → (s.conns a).roomId = (s.conns c).roomId →
      (s.conns a).peerId ≠ (entering s c).nextId
  | _ => True

theorem RoomShrunk.length_le {room room' : Room} (h : RoomShrunk room room') :
    room'.peers.length ≤ room.peers.length := by
  simpa using List.Sublist.length_le h

/-! ## Quiet steps -/

theorem entries_quiet {s m : State} (h : Quiet s m) (hs : Entries s) : Entries m where
  owner roomId room' hroom' p' hp' := by
    obtain ⟨room, hroom, hsub⟩ := h.rooms roomId room' hroom'
    obtain ⟨p, hp, hid, htx⟩ := hsub.mem hp'
    obtain ⟨hreg, hrid, hpid⟩ := hs.owner roomId room hroom p hp
    rw [htx] at hreg hrid hpid
    -- the entry was there before, so its handler held the id before:
    rcases h.released p'.tx hreg with hstill | hgone
    · obtain ⟨-, hroomId, hpeerId⟩ := h.held p'.tx hstill
      exact ⟨hstill, hroomId.trans hrid, hpeerId.trans (hpid.trans hid)⟩
    · -- the handler ended, so its entry is gone
      rw [hrid] at hgone
      exact absurd (hid.symm.trans hpid.symm) (hgone room' hroom' p' hp')
  capacity roomId room' hroom' := by
    obtain ⟨room, hroom, hsub⟩ := h.rooms roomId room' hroom'
    exact hsub.length_le.trans (hs.capacity roomId room hroom)

theorem owned_quiet {s m : State} (h : Quiet s m) (ho : Owned s) : Owned m := by
  intro c hc room' hroom' p' hp' hid'
  obtain ⟨hreg, hroomId, hpeerId⟩ := h.held c hc
  rw [State.room?, hroomId] at hroom'
  obtain ⟨room, hroom, hsub⟩ := h.rooms _ room' hroom'
  obtain ⟨p, hp, hid, htx⟩ := hsub.mem hp'
  rw [← htx]
  exact ho c hreg room hroom p hp (hid.trans (hid'.trans hpeerId))

/-! ## Entering a room -/

section Register

variable {s : State} {c : ConnId} {token : Bytes}

/-- The entries of the entered room are those of the room that was there. -/
theorem mem_entering {p : Peer} (hp : p ∈ (entering s c).peers) :
    ∃ room, s.rooms.lookup (s.conns c).roomId = some room ∧ p ∈ room.peers := by
  rw [entering] at hp
  cases h : s.rooms.lookup (s.conns c).roomId with
  | none => simp [h, Room.new] at hp
  | some room =>
      rw [h] at hp
      exact ⟨room, rfl, hp⟩

/-- The other handlers are not changed by a handler that enters its room. -/
theorem register_conns_ne (token : Bytes) {a : ConnId} (ha : a ≠ c) :
    ((register s c token).conns a).pc = (s.conns a).pc ∧
      ((register s c token).conns a).roomId = (s.conns a).roomId ∧
      ((register s c token).conns a).peerId = (s.conns a).peerId := by
  obtain ⟨kept, conns', -, -, hpost, heq⟩ := register_eq s c token
  rw [heq]
  simp [Function.update_of_ne ha, hpost.pc, hpost.roomId, hpost.peerId]

/-- The handler stands in its room under the id that the counter had. -/
theorem register_conns_self :
    ((register s c token).conns c).pc = .entered ∧
      ((register s c token).conns c).roomId = (s.conns c).roomId ∧
      ((register s c token).conns c).peerId = (entering s c).nextId := by
  obtain ⟨kept, conns', -, -, hpost, heq⟩ := register_eq s c token
  rw [heq]
  simp [hpost.roomId]

/-- The rooms after a connection has entered: its room has some of the old entries and the new one. -/
theorem register_lookup (s : State) (c : ConnId) (token : Bytes) :
    ∃ kept, kept.Sublist (entering s c).peers ∧
      ((entering s c).peers.length ≤ 2 → kept.length ≤ 1) ∧
      (register s c token).rooms.lookup (s.conns c).roomId =
        some (Room.addPeer { entering s c with peers := kept } c s.now token) ∧
      ∀ roomId, roomId ≠ (s.conns c).roomId →
        (register s c token).rooms.lookup roomId = s.rooms.lookup roomId := by
  obtain ⟨kept, conns', hsub, hlen, -, heq⟩ := register_eq s c token
  refine ⟨kept, hsub, hlen, ?_, ?_⟩
  · rw [heq]
    exact AList.lookup_insert _
  · intro roomId hne
    rw [heq]
    exact AList.lookup_insert_ne hne

/-- A running handler is not the one that enters. -/
theorem ne_of_registered {a : ConnId} (hpc : (s.conns c).pc = .joining)
    (ha : s.registered a = true) : a ≠ c := by
  rintro rfl
  simp [State.registered, hpc, Pc.isRegistered] at ha

theorem registered_register {a : ConnId} (hpc : (s.conns c).pc = .joining) :
    (register s c token).registered a = true ↔ a = c ∨ s.registered a = true := by
  by_cases ha : a = c
  · subst ha
    simp [State.registered, register_conns_self, Pc.isRegistered]
  · simp [State.registered, register_conns_ne token ha, ha]

/-- An entry of a room after a connection has entered it: the new one, or an old one. -/
theorem mem_register {room' : Room} {roomId : Text}
    (hroom : (register s c token).rooms.lookup roomId = some room') {p : Peer}
    (hp : p ∈ room'.peers) :
    (roomId = (s.conns c).roomId ∧ p.id = (entering s c).nextId ∧ p.tx = c) ∨
      ∃ room, s.rooms.lookup roomId = some room ∧ p ∈ room.peers := by
  obtain ⟨kept, hsub, -, hself, hother⟩ := register_lookup s c token
  by_cases hid : roomId = (s.conns c).roomId
  · subst hid
    rw [hself] at hroom
    obtain rfl := Option.some.inj hroom
    rcases List.mem_append.1 hp with hp | hp
    · exact Or.inr (mem_entering (hsub.subset hp))
    · obtain rfl := List.mem_singleton.1 hp
      exact Or.inl ⟨rfl, rfl, rfl⟩
  · rw [hother roomId hid] at hroom
    exact Or.inr ⟨room', hroom, hp⟩

theorem entries_register (hpc : (s.conns c).pc = .joining) (hs : Entries s) :
    Entries (register s c token) := by
  obtain ⟨kept, -, hlen, hself, hother⟩ := register_lookup s c token
  have hentering : (entering s c).peers.length ≤ 2 := by
    rw [entering]
    cases h : s.rooms.lookup (s.conns c).roomId with
    | none => simp [Room.new]
    | some room => exact hs.capacity _ room h
  refine ⟨?_, ?_⟩
  · intro roomId room' hroom p hp
    rcases mem_register hroom hp with ⟨rfl, hid, htx⟩ | ⟨room, hroom, hp⟩
    · rw [htx, hid]
      exact ⟨(registered_register hpc).2 (Or.inl rfl), register_conns_self.2.1,
        register_conns_self.2.2⟩
    · obtain ⟨hreg, hrid, hpid⟩ := hs.owner roomId room hroom p hp
      obtain ⟨-, hroomId, hpeerId⟩ := register_conns_ne token (ne_of_registered hpc hreg)
      exact ⟨(registered_register hpc).2 (Or.inr hreg), hroomId.trans hrid, hpeerId.trans hpid⟩
  · intro roomId room' hroom
    by_cases hid : roomId = (s.conns c).roomId
    · subst hid
      rw [hself] at hroom
      obtain rfl := Option.some.inj hroom
      -- the join has made place for one more:
      have hone := hlen hentering
      simp only [Room.addPeer, List.length_append, List.length_singleton]
      omega
    · rw [hother roomId hid] at hroom
      exact hs.capacity roomId room' hroom

/-- Entering a room keeps the ownership exactly when the id is fresh. -/
theorem owned_register (hpc : (s.conns c).pc = .joining) (hs : Entries s) (ho : Owned s) :
    Owned (register s c token) ↔ FreshId s (.register c token) := by
  obtain ⟨kept, hsub, -, hself, -⟩ := register_lookup s c token
  constructor
  · intro howned a ha hroom hid
    have hne := ne_of_registered hpc ha
    obtain ⟨-, hroomId, hpeerId⟩ := register_conns_ne token hne
    -- the running handler `a` would find the new entry under its own id:
    have hreg : (register s c token).registered a = true := (registered_register hpc).2 (Or.inr ha)
    rw [← hroom, ← hroomId] at hself
    have htx := howned a hreg _ hself _ (List.mem_append_right _ (List.mem_singleton_self _))
      (hid.symm.trans hpeerId.symm)
    exact hne htx.symm
  · intro hfresh a ha room' hroom p hp hid
    rcases mem_register hroom hp with ⟨hrid, hpid, htx⟩ | ⟨room, hold, hpold⟩
    · -- the new entry: only the handler that enters holds its id
      rcases (registered_register hpc).1 ha with rfl | hreg
      · exact htx
      · obtain ⟨-, hroomId, hpeerId⟩ := register_conns_ne token (ne_of_registered hpc hreg)
        exact absurd (hpeerId.symm.trans (hid.symm.trans hpid))
          (hfresh a hreg (hroomId.symm.trans hrid))
    · rcases (registered_register hpc).1 ha with rfl | hreg
      · -- an old entry under the new id belongs to a handler that holds this id
        obtain ⟨hother, hrid, hpid⟩ := hs.owner _ room hold p hpold
        rw [register_conns_self.2.1] at hrid
        rw [register_conns_self.2.2] at hid
        exact absurd (hpid.trans hid) (hfresh p.tx hother hrid)
      · obtain ⟨-, hroomId, hpeerId⟩ := register_conns_ne token (ne_of_registered hpc hreg)
        rw [hroomId] at hold
        exact ho a hreg room hold p hpold (hid.trans hpeerId)

end Register

/-! ## Runs -/

/-- Every step keeps the entries in order. -/
theorem entries_step {J : SerdeJson} {s m : State} {e : Event} (hs : Entries s)
    (h : step J s e = some m) : Entries m := by
  rcases register_or_quiet h with ⟨c, token, -, hpc, rfl⟩ | ⟨-, hquiet⟩
  · exact entries_register hpc hs
  · exact entries_quiet hquiet hs

/-- A connection that has read its join stays with its room. -/
theorem settled_step {J : SerdeJson} {s m : State} {e : Event} (h : step J s e = some m) {c : ConnId}
    (hc : (s.conns c).pc ≠ .accepted) :
    (m.conns c).pc ≠ .accepted ∧ (m.conns c).roomId = (s.conns c).roomId := by
  rcases register_or_quiet h with ⟨d, token, -, -, rfl⟩ | ⟨-, hquiet⟩
  · by_cases hcd : c = d
    · subst hcd
      refine ⟨?_, register_conns_self.2.1⟩
      rw [register_conns_self.1]
      simp
    · obtain ⟨hpc, hroom, -⟩ := register_conns_ne (s := s) token hcd
      rw [hpc]
      exact ⟨hc, hroom⟩
  · exact hquiet.settled c hc

theorem entered_step {J : SerdeJson} {s m : State} {e : Event} (h : step J s e = some m) {c : ConnId}
    (hc : (s.conns c).pc.hasEntered = true) : (m.conns c).pc.hasEntered = true := by
  rcases register_or_quiet h with ⟨d, token, -, -, rfl⟩ | ⟨-, hquiet⟩
  · by_cases hcd : c = d
    · subst hcd
      rw [register_conns_self.1]
      rfl
    · rw [(register_conns_ne token hcd).1]
      exact hc
  · exact hquiet.entered c hc

/-- One step keeps the ownership exactly when its id is fresh. -/
theorem owned_step {J : SerdeJson} {s m : State} {e : Event} (hs : Entries s) (ho : Owned s)
    (h : step J s e = some m) : Owned m ↔ FreshId s e := by
  rcases register_or_quiet h with ⟨c, token, rfl, hpc, rfl⟩ | ⟨hne, hquiet⟩
  · exact owned_register hpc hs ho
  · refine ⟨fun _ => ?_, fun _ => owned_quiet hquiet ho⟩
    -- a quiet step hands out no id
    cases e with
    | register c token => exact absurd rfl (hne c token)
    | _ => trivial

theorem lookup_start (roomId : Text) : State.start.rooms.lookup roomId = none :=
  AList.lookup_empty roomId

theorem entries_start : Entries State.start where
  owner roomId room h := by
    rw [lookup_start] at h
    cases h
  capacity roomId room h := by
    rw [lookup_start] at h
    cases h

/-- The runs in which every handler touches only its own entry are those in which every id that is
handed out is fresh. -/
theorem owned_iff (J : SerdeJson) (es : List Event) :
    Along (stepRel (step J)) Owned .start es ↔ Guarded (stepRel (step J)) FreshId .start es := by
  apply along_iff_guarded (I := Entries)
  · intro s e m hs h
    exact entries_step hs h
  · intro s e m hs ho h
    exact owned_step hs ho h
  · exact entries_start
  · intro c hc
    cases hc

/-- A connection joins the room `r` and starts to read. -/
def joins (c : ConnId) (token : Bytes) : List Event :=
  [.first c (some (joinJson ['r']).encode), .register c token, .sendAuth c, .announce c]

/-- A silent connection is swept from its room, which is removed; the next connection gets the same id.
When the old connection closes, its cleanup removes the entry of the new one. -/
theorem late_close_removes_newcomer :
    ∃ s t, Run (stepRel (step (.knowing [joinJson ['r']]))) .start
        (joins 0 [1] ++ [.elapse 61000, .sweep] ++ joins 1 [2]) s ∧
      ¬ Owned s ∧
      Run (stepRel (step (.knowing [joinJson ['r']]))) s [.streamEnd 0, .cleanup 0] t ∧
      (s.ownPeer? 1).isSome = true ∧ t.ownPeer? 1 = none := by
  refine ⟨_, _, run_of_exec rfl, ?_, run_of_exec rfl, rfl, rfl⟩
  intro ho
  -- connection 0 finds the entry of connection 1:
  have htx := ho 0 rfl _ rfl _ (List.mem_singleton_self _) rfl
  cases htx

end Ktty.Relay
