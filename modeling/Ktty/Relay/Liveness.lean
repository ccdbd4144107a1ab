import Ktty.Relay.Members

/-!
# Live peers and the filters

A join and the eviction task probe the peers of a room with a ping and drop those whose channel does not
take it. `try_send` fails on a closed channel and on a full one alike, so a connected peer with recent
activity is dropped as well when its 64 places are taken. The filters spare the live peers exactly in the
runs in which no live peer that they probe has a full channel (`filters_spare_live_iff`).
-/

set_option autoImplicit false

namespace Ktty.Relay

open Ktty.Wire Ktty.Lib.Execution

deriving instance DecidableEq for Peer

/-- The channel of the peer is not full. -/
def Conn.hasSpace (conn : Conn) : Prop := conn.queue.length < PEER_CHANNEL_CAPACITY

/-- What the filters of a step remove is dead: its receiver is gone or, for the eviction task, its last
activity is at least 60 seconds ago. -/
def SparesLive (s : State) : Event → Prop
  | .register d _ =>
      ∀ p ∈ (entering s d).peers, p ∉ pinged s d → (s.conns p.tx).rxAlive = false
  | .sweep =>
      ∀ roomId room, s.rooms.lookup roomId = some room → ∀ p ∈ room.peers,
        (∀ room', (sweep s).rooms.lookup roomId = some room' → p ∉ room'.peers) →
          (s.conns p.tx).rxAlive = false ∨ 60000 ≤ s.now - p.lastActivity
  | _ => True

/-- The live peers that the filters of a step probe have space in their channels. -/
def LiveHaveSpace (s : State) : Event → Prop
  | .register d _ =>
      ∀ p ∈ (entering s d).peers, (s.conns p.tx).rxAlive = true → (s.conns p.tx).hasSpace
  | .sweep =>
      ∀ roomId room, s.rooms.lookup roomId = some room → ∀ p ∈ room.peers,
        (s.conns p.tx).rxAlive = true → s.now - p.lastActivity < 60000 → (s.conns p.tx).hasSpace
  | _ => True

section Facts

variable {s m : State} {p : Peer}

theorem youngAt_iff (now : Nat) (p : Peer) : youngAt now p = true ↔ now - p.lastActivity < 60000 := by
  rw [youngAt, decide_eq_true_eq]
  omega

theorem Conn.takes_iff (conn : Conn) : conn.takes = true ↔ conn.rxAlive = true ∧ conn.hasSpace := by
  rw [Conn.takes, Bool.and_eq_true, decide_eq_true_eq, Conn.hasSpace]

/-- The entries of the room that a connection enters are those of different connections. -/
theorem entering_distinct (hs : Members s) (d : ConnId) :
    ((entering s d).peers.map Peer.tx).Nodup := by
  rw [entering]
  cases hroom : s.rooms.lookup (s.conns d).roomId with
  | none => exact List.nodup_nil
  | some room => exact hs.distinct _ room hroom

/-- The ping filter of a join keeps the peers that are connected and have space. -/
theorem mem_pinged_iff (hs : Members s) {d : ConnId} (hp : p ∈ (entering s d).peers) :
    p ∈ pinged s d ↔ (s.conns p.tx).rxAlive = true ∧ (s.conns p.tx).hasSpace := by
  rw [pinged, retainAlive_eq_filter (entering_distinct hs d), List.mem_filter, Bool.true_and,
    Conn.takes_iff]
  exact and_iff_right hp

/-- The eviction task keeps the peers that are connected, were active in the last 60 seconds, and have
space. -/
theorem mem_swept_iff (hs : Members s) {roomId : Text} {room : Room}
    (hroom : s.rooms.lookup roomId = some room) (hp : p ∈ room.peers) :
    (∃ room', (sweep s).rooms.lookup roomId = some room' ∧ p ∈ room'.peers) ↔
      s.now - p.lastActivity < 60000 ∧ (s.conns p.tx).rxAlive = true ∧ (s.conns p.tx).hasSpace := by
  rw [← youngAt_iff, ← Conn.takes_iff, ← Bool.and_eq_true]
  constructor
  · rintro ⟨room', hroom', hp'⟩
    rw [sweep_lookup_eq hs hroom] at hroom'
    obtain ⟨rfl, -⟩ := keepRoom_eq_some hroom'
    exact (List.mem_filter.1 hp').2
  · intro hkept
    have hmem : p ∈ room.peers.filter fun p => youngAt s.now p && (s.conns p.tx).takes :=
      List.mem_filter.2 ⟨hp, hkept⟩
    refine ⟨{ room with peers := _ }, ?_, hmem⟩
    rw [sweep_lookup_eq hs hroom]
    exact keepRoom_of_mem hmem

/-- The filters of one step spare the live peers exactly when these have space. -/
theorem sparesLive_iff (hs : Members s) (e : Event) : SparesLive s e ↔ LiveHaveSpace s e := by
  cases e with
  | register d token =>
      apply forall₂_congr
      intro p hp
      rw [mem_pinged_iff hs hp]
      cases (s.conns p.tx).rxAlive with
      | true => simp
      | false => simp
  | sweep =>
      apply forall₃_congr
      intro roomId room hroom
      apply forall₂_congr
      intro p hp
      have hswept := mem_swept_iff hs hroom hp
      constructor
      · intro hspares halive hyoung
        by_contra hfull
        have hgone : ∀ room', (sweep s).rooms.lookup roomId = some room' → p ∉ room'.peers := by
          intro room' hroom' hp'
          exact hfull (hswept.1 ⟨room', hroom', hp'⟩).2.2
        rcases hspares hgone with hdead | hold
        · rw [halive] at hdead
          cases hdead
        · omega
      · intro hspace hgone
        by_contra hlive
        simp only [not_or, Bool.not_eq_false, Nat.not_le] at hlive
        obtain ⟨room', hroom', hp'⟩ :=
          hswept.2 ⟨hlive.2, hlive.1, hspace hlive.1 hlive.2⟩
        exact hgone room' hroom' hp'
  | _ => exact Iff.rfl

end Facts

/-- The runs in which the filters only remove dead entries are those in which no live peer that they
probe has a full channel. -/
theorem filters_spare_live_iff (J : SerdeJson) (es : List Event) :
    Guarded (stepRel (step J)) SparesLive .start es ↔
      Guarded (stepRel (step J)) LiveHaveSpace .start es := by
  apply guarded_iff_guarded (I := Members)
  · intro s e m hs h
    exact members_step h hs
  · intro s e m hs _
    exact sparesLive_iff hs e
  · exact members_start

/-! ## A full channel -/

/-- Two peers join, and the second one sends as many binary messages to the first as its channel has
places. -/
def burst : List Event :=
  joins 0 [1] ++ joins 1 [2] ++
    (List.replicate 61 [.frame 1 (.binary [0]), .forward 1]).flatten

instance (s : State) (d : ConnId) (token : Bytes) : Decidable (SparesLive s (.register d token)) :=
  inferInstanceAs (Decidable
    (∀ p ∈ (entering s d).peers, p ∉ pinged s d → (s.conns p.tx).rxAlive = false))

/-- The first peer has just joined and reads; only its writer has not come to send the burst. The next
join drops it. -/
theorem busy_peer_is_dropped :
    ∃ s, Run (stepRel (step (.knowing [joinJson ['r']]))) .start
        (burst ++ [.first 2 (some (joinJson ['r']).encode)]) s ∧
      (s.conns 2).pc = .joining ∧ (s.conns 0).rxAlive = true ∧
      (∃ p ∈ (entering s 2).peers, p.tx = 0 ∧ p.lastActivity = s.now) ∧
      ¬ SparesLive s (.register 2 [3]) :=
  exists_run_of_exec (by decide +kernel)

end Ktty.Relay
