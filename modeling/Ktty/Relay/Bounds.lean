import Ktty.Relay.Liveness
import Mathlib.Algebra.Order.BigOperators.Group.List

/-!
# Bounds of the relay

What the relay keeps is bounded in space and in time. Every channel holds at most
`PEER_CHANNEL_CAPACITY` messages, and so the channels of a room twice as many (`channels_bounded`). The
eviction task looks at all rooms every 30 seconds; as long as it comes in time, no entry of the room map
has been silent for 90 seconds (`entries_recent`).
-/

set_option autoImplicit false

namespace Ktty.Relay

open Ktty.Wire Ktty.Lib.Execution

/-! ## Space -/

/-- No channel holds more messages than it has places. -/
def Fits (conns : Conns) : Prop := ∀ c, (conns c).queue.length ≤ PEER_CHANNEL_CAPACITY

/-- The messages in the channels of the peers of a room. -/
def Room.backlog (conns : Conns) (room : Room) : Nat :=
  (room.peers.map fun p => (conns p.tx).queue.length).sum

section Fits

variable {conns : Conns}

theorem fits_update {c : ConnId} {conn : Conn} (h : Fits conns)
    (hconn : conn.queue.length ≤ PEER_CHANNEL_CAPACITY) : Fits (Function.update conns c conn) := by
  intro a
  by_cases hac : a = c
  · subst hac
    simpa using hconn
  · simpa [Function.update_of_ne hac] using h a

theorem trySend_fits (c : ConnId) (m : RelayMsg) (h : Fits conns) : Fits (trySend conns c m).1 := by
  rw [trySend]
  split
  · rename_i hspace
    -- there was a place left:
    apply fits_update h
    rw [List.length_append, List.length_singleton]
    omega
  · exact h

theorem sendAll_fits (peers : List Peer) (m : RelayMsg) (h : Fits conns) :
    Fits (sendAll conns peers m) := by
  induction peers generalizing conns with
  | nil => exact h
  | cons p ps ih => exact ih (trySend_fits p.tx m h)

theorem retainAlive_fits (young : Peer → Bool) (peers : List Peer) (h : Fits conns) :
    Fits (retainAlive young peers conns).2 := by
  induction peers generalizing conns with
  | nil => exact h
  | cons p ps ih =>
      rw [retainAlive]
      dsimp only
      split
      · exact ih (trySend_fits p.tx .ping h)
      · exact ih h

theorem makeRoom_fits (c : ConnId) (peers : List Peer) (h : Fits conns) :
    Fits (makeRoom c peers conns).2 := by
  rw [makeRoom]
  split
  · cases takeLeastActive peers with
    | none => exact h
    | some found => exact trySend_fits _ _ h
  · exact h

theorem sweep_fits {s : State} (h : Fits s.conns) : Fits (sweep s).conns := by
  have hfold : ∀ (ids : List Text) (acc : RoomMap × Conns), Fits acc.2 →
      Fits (ids.foldl (sweepRoom s.now) acc).2 := by
    intro ids
    induction ids with
    | nil => exact fun _ h => h
    | cons roomId ids ih =>
        intro acc hacc
        apply ih
        rw [sweepRoom]
        cases acc.1.lookup roomId with
        | none => exact hacc
        | some room => exact retainAlive_fits _ _ hacc
  exact hfold s.rooms.keys (s.rooms, s.conns) h

/-- Replacing the record of one connection by one with no longer queue. -/
theorem fits_setConn {s : State} {c : ConnId} {conn : Conn} (h : Fits s.conns)
    (hconn : conn.queue.length ≤ (s.conns c).queue.length) : Fits (s.setConn c conn).conns :=
  fits_update h (hconn.trans (h c))

theorem fits_setPc {s : State} (c : ConnId) (pc : Pc) (h : Fits s.conns) :
    Fits (s.setPc c pc).conns :=
  fits_setConn h (le_refl _)

end Fits

theorem updateActivity_conns (s : State) (c : ConnId) : (s.updateActivity c).conns = s.conns := by
  rw [State.updateActivity]
  cases s.room? c <;> rfl

theorem readFrame_fits (J : SerdeJson) {s : State} (c : ConnId) (f : Frame) (h : Fits s.conns) :
    Fits (readFrame J s c f).conns := by
  cases f with
  | close => exact fits_setPc c _ h
  | binary d => exact fits_setPc c _ h
  | pong =>
      rw [readFrame, updateActivity_conns]
      exact h
  | ping d =>
      rw [readFrame, answerPing]
      cases s.ownPeer? c with
      | none => exact fits_setPc c _ h
      | some peer =>
          apply fits_setPc
          exact trySend_fits _ _ h
  | text t =>
      rw [readFrame]
      split
      · exact h
      · cases J.fromStr t with
        | none => exact h
        | some val =>
            dsimp only
            split
            · exact fits_setPc c _ h
            · exact h

theorem fits_step {J : SerdeJson} {s m : State} {e : Event} (hs : Fits s.conns)
    (h : step J s e = some m) : Fits m.conns := by
  cases e with
  | first c t =>
      obtain ⟨-, rfl⟩ := of_guard h
      rw [first]
      cases t.bind (readJoin J) with
      | some roomId => exact fits_setConn hs (le_refl _)
      | none => exact fits_setPc c _ hs
  | register c token =>
      obtain ⟨-, rfl⟩ := of_guard h
      -- the new channel is empty
      exact fits_update (makeRoom_fits c _ (retainAlive_fits _ _ hs)) (Nat.zero_le _)
  | sendAuth c =>
      obtain ⟨-, rfl⟩ := of_guard h
      apply fits_setPc
      exact trySend_fits _ _ hs
  | announce c =>
      obtain ⟨-, rfl⟩ := of_guard h
      apply fits_setPc
      cases s.room? c with
      | none => exact hs
      | some room => exact sendAll_fits _ _ hs
  | frame c f =>
      obtain ⟨-, rfl⟩ := of_guard h
      exact readFrame_fits J c f hs
  | activity c =>
      obtain ⟨-, rfl⟩ := of_guard h
      apply fits_setPc
      rw [updateActivity_conns]
      exact hs
  | forward c =>
      obtain ⟨p, -, rfl⟩ := forward_of_step h
      apply fits_setPc
      cases s.room? c with
      | none => exact hs
      | some room => exact sendAll_fits _ _ hs
  | streamEnd c =>
      obtain ⟨-, rfl⟩ := of_guard h
      exact fits_setPc c _ hs
  | cleanup c =>
      obtain ⟨-, rfl⟩ := of_guard h
      apply fits_setPc
      cases s.room? c with
      | none => exact hs
      | some room => exact sendAll_fits _ _ hs
  | deliver c =>
      obtain ⟨x, xs, hq, rfl⟩ := deliver_eq h
      apply fits_setConn hs
      rw [hq]
      exact Nat.le_succ _
  | keepalive c =>
      obtain ⟨-, rfl⟩ := of_guard h
      exact fits_setConn hs (le_refl _)
  | writerEnds c =>
      obtain ⟨-, rfl⟩ := of_guard h
      exact fits_setConn hs (le_refl _)
  | receive c =>
      obtain ⟨x, xs, -, rfl⟩ := receive_of_step h
      exact fits_setConn hs (le_refl _)
  | sweep =>
      obtain rfl := Option.some.inj h
      exact sweep_fits hs
  | elapse d =>
      obtain rfl := Option.some.inj h
      exact hs

theorem backlog_le {conns : Conns} (h : Fits conns) (room : Room) :
    room.backlog conns ≤ room.peers.length * PEER_CHANNEL_CAPACITY := by
  rw [Room.backlog]
  calc (room.peers.map fun p => (conns p.tx).queue.length).sum
      ≤ (room.peers.map fun p => (conns p.tx).queue.length).length * PEER_CHANNEL_CAPACITY := by
        apply List.sum_le_card_nsmul
        intro n hn
        obtain ⟨p, -, rfl⟩ := List.mem_map.1 hn
        exact h p.tx
    _ = room.peers.length * PEER_CHANNEL_CAPACITY := by rw [List.length_map]

/-- Whatever the peers send and however slowly they read, a channel never holds more than its capacity,
nor the channels of a room more than twice as much. -/
theorem channels_bounded (J : SerdeJson) (es : List Event) :
    Along (stepRel (step J)) (fun s => Fits s.conns ∧
      ∀ roomId room, s.rooms.lookup roomId = some room →
        room.backlog s.conns ≤ 2 * PEER_CHANNEL_CAPACITY) .start es := by
  apply along_of_invariant (I := fun s => Fits s.conns ∧ Entries s)
  · rintro s e m ⟨hfits, hentries⟩ h
    exact ⟨fits_step hfits h, entries_step hentries h⟩
  · rintro s ⟨hfits, hentries⟩
    refine ⟨hfits, fun roomId room hroom => ?_⟩
    have htwo := hentries.capacity roomId room hroom
    exact (backlog_le hfits room).trans (Nat.mul_le_mul_right _ htwo)
  · exact ⟨fun _ => Nat.zero_le _, entries_start⟩

/-! ## Time -/

/-- The relay with the time of its last sweep. -/
structure Swept where
  relay : State
  lastSweep : Nat

namespace Swept

def start : Swept := { relay := .start, lastSweep := 0 }

def step (J : SerdeJson) (w : Swept) (e : Event) : Option Swept :=
  (Relay.step J w.relay e).map fun m =>
    { relay := m
      lastSweep :=
        match e with
        | .sweep => w.relay.now
        | _ => w.lastSweep }

/-- No 30 seconds pass without a sweep. -/
def InTime (w : Swept) : Event → Prop
  | .elapse d => w.relay.now + d ≤ w.lastSweep + 30000
  | _ => True

instance (w : Swept) (e : Event) : Decidable (w.InTime e) :=
  match e with
  | .elapse d => inferInstanceAs (Decidable (w.relay.now + d ≤ w.lastSweep + 30000))
  | .first _ _ | .register _ _ | .sendAuth _ | .announce _ | .frame _ _ | .activity _ | .forward _
  | .streamEnd _ | .cleanup _ | .deliver _ | .keepalive _ | .writerEnds _ | .receive _ | .sweep =>
      isTrue trivial

/-- Every entry of the room map has been active within the last 90 seconds. -/
def Recent (w : Swept) : Prop :=
  ∀ roomId room, w.relay.rooms.lookup roomId = some room → ∀ p ∈ room.peers,
    w.relay.now < p.lastActivity + 90000

end Swept

/-- The activity of an entry after a step: that of an entry before it, or the present moment. -/
def Aged (s : State) (rooms : RoomMap) : Prop :=
  ∀ roomId room', rooms.lookup roomId = some room' → ∀ p' ∈ room'.peers, p'.lastActivity = s.now ∨
    ∃ room, s.rooms.lookup roomId = some room ∧ ∃ p ∈ room.peers, p.lastActivity = p'.lastActivity

theorem aged_self (s : State) : Aged s s.rooms :=
  fun _ room h p hp => Or.inr ⟨room, h, p, hp, rfl⟩

theorem mem_touch {peerId now : Nat} {peers : List Peer} {p : Peer} (h : p ∈ touch peerId now peers) :
    p.lastActivity = now ∨ p ∈ peers := by
  induction peers with
  | nil => cases h
  | cons q qs ih =>
      rw [touch] at h
      split at h
      · rcases List.mem_cons.1 h with rfl | h
        · exact Or.inl rfl
        · exact Or.inr (List.mem_cons_of_mem _ h)
      · rcases List.mem_cons.1 h with rfl | h
        · exact Or.inr (List.mem_cons_self ..)
        · exact (ih h).imp_right (List.mem_cons_of_mem _)

theorem updateActivity_aged (s : State) (c : ConnId) : Aged s (s.updateActivity c).rooms := by
  rw [State.updateActivity]
  cases hroom : s.room? c with
  | none => exact aged_self s
  | some room =>
      intro roomId room' hroom' p' hp'
      by_cases hid : roomId = (s.conns c).roomId
      · subst hid
        rw [AList.lookup_insert] at hroom'
        obtain rfl := Option.some.inj hroom'
        exact (mem_touch hp').imp_right fun hp => ⟨room, hroom, p', hp, rfl⟩
      · rw [AList.lookup_insert_ne hid] at hroom'
        exact aged_self s roomId room' hroom' p' hp'

theorem readFrame_aged (J : SerdeJson) (s : State) (c : ConnId) (f : Frame) :
    Aged s (readFrame J s c f).rooms := by
  cases f with
  | pong => exact updateActivity_aged s c
  | close => exact aged_self s
  | binary d => exact aged_self s
  | ping d =>
      rw [readFrame, answerPing]
      cases s.ownPeer? c <;> exact aged_self s
  | text t =>
      rw [readFrame]
      split
      · exact aged_self s
      · cases J.fromStr t with
        | none => exact aged_self s
        | some val =>
            dsimp only
            split <;> exact aged_self s

theorem register_aged (s : State) (c : ConnId) (token : Bytes) :
    Aged s (register s c token).rooms := by
  obtain ⟨kept, hsub, -, hself, hother⟩ := register_lookup s c token
  intro roomId room' hroom' p' hp'
  by_cases hid : roomId = (s.conns c).roomId
  · subst hid
    rw [hself] at hroom'
    obtain rfl := Option.some.inj hroom'
    rcases List.mem_append.1 hp' with hp | hp
    · obtain ⟨room, hroom, hmem⟩ := mem_entering (hsub.subset hp)
      exact Or.inr ⟨room, hroom, p', hmem, rfl⟩
    · obtain rfl := List.mem_singleton.1 hp
      exact Or.inl rfl
  · rw [hother roomId hid] at hroom'
    exact aged_self s roomId room' hroom' p' hp'

theorem cleanup_aged (s : State) (c : ConnId) : Aged s (cleanup s c).rooms := by
  intro roomId room' hroom' p' hp'
  rw [cleanup_lookup] at hroom'
  split at hroom'
  · obtain ⟨room, hroom, hkeep⟩ := Option.bind_eq_some_iff.1 hroom'
    obtain ⟨rfl, -⟩ := keepRoom_eq_some hkeep
    exact Or.inr ⟨room, hroom, p', List.mem_of_mem_filter hp', rfl⟩
  · exact aged_self s roomId room' hroom' p' hp'

/-- A step other than a sweep. -/
theorem step_aged {J : SerdeJson} {s m : State} {e : Event} (h : step J s e = some m)
    (he : e ≠ .sweep) : Aged s m.rooms := by
  cases e with
  | first c t =>
      obtain ⟨-, rfl⟩ := of_guard h
      rw [first]
      cases t.bind (readJoin J) <;> exact aged_self s
  | register c token =>
      obtain ⟨-, rfl⟩ := of_guard h
      exact register_aged s c token
  | announce c =>
      obtain ⟨-, rfl⟩ := of_guard h
      rw [announce]
      cases s.room? c <;> exact aged_self s
  | frame c f =>
      obtain ⟨-, rfl⟩ := of_guard h
      exact readFrame_aged J s c f
  | activity c =>
      obtain ⟨-, rfl⟩ := of_guard h
      exact updateActivity_aged s c
  | forward c =>
      obtain ⟨p, -, rfl⟩ := forward_of_step h
      rw [forward]
      cases s.room? c with
      | none => exact aged_self s
      | some room => exact updateActivity_aged s c
  | cleanup c =>
      obtain ⟨-, rfl⟩ := of_guard h
      exact cleanup_aged s c
  | deliver c =>
      obtain ⟨x, xs, -, rfl⟩ := deliver_eq h
      exact aged_self s
  | receive c =>
      obtain ⟨x, xs, -, rfl⟩ := receive_of_step h
      exact aged_self s
  | sweep => exact absurd rfl he
  | elapse d =>
      obtain rfl := Option.some.inj h
      exact aged_self s
  | _ =>
      obtain ⟨-, rfl⟩ := of_guard h
      exact aged_self s

/-- Time passes in no other step. -/
theorem step_now {J : SerdeJson} {s m : State} {e : Event} (h : step J s e = some m)
    (he : ∀ d, e ≠ .elapse d) : m.now = s.now := by
  have touched : ∀ c, (s.updateActivity c).now = s.now := by
    intro c
    rw [State.updateActivity]
    cases s.room? c <;> rfl
  cases e with
  | first c t =>
      obtain ⟨-, rfl⟩ := of_guard h
      rw [first]
      cases t.bind (readJoin J) <;> rfl
  | announce c =>
      obtain ⟨-, rfl⟩ := of_guard h
      rw [announce]
      cases s.room? c <;> rfl
  | frame c f =>
      obtain ⟨-, rfl⟩ := of_guard h
      cases f with
      | pong => exact touched c
      | ping d =>
          rw [readFrame, answerPing]
          cases s.ownPeer? c <;> rfl
      | text t =>
          rw [readFrame]
          split
          · rfl
          · cases J.fromStr t with
            | none => rfl
            | some val =>
                dsimp only
                split <;> rfl
      | _ => rfl
  | activity c =>
      obtain ⟨-, rfl⟩ := of_guard h
      exact touched c
  | forward c =>
      obtain ⟨p, -, rfl⟩ := forward_of_step h
      rw [forward]
      cases s.room? c with
      | none => rfl
      | some room => exact touched c
  | cleanup c =>
      obtain ⟨-, rfl⟩ := of_guard h
      rw [cleanup]
      cases s.room? c <;> rfl
  | deliver c =>
      obtain ⟨x, xs, -, rfl⟩ := deliver_eq h
      rfl
  | receive c =>
      obtain ⟨x, xs, -, rfl⟩ := receive_of_step h
      rfl
  | sweep =>
      obtain rfl := Option.some.inj h
      rfl
  | elapse d => exact absurd rfl (he d)
  | _ =>
      obtain ⟨-, rfl⟩ := of_guard h
      rfl

namespace Swept

/-- The last sweep is at most 30 seconds ago, and every entry was active in the 60 seconds before it or
since. -/
structure Tended (w : Swept) : Prop where
  members : Members w.relay
  past : w.lastSweep ≤ w.relay.now
  sweep : w.relay.now ≤ w.lastSweep + 30000
  entries : ∀ roomId room, w.relay.rooms.lookup roomId = some room → ∀ p ∈ room.peers,
    w.lastSweep < p.lastActivity + 60000

theorem tended_step {J : SerdeJson} {w w' : Swept} {e : Event} (hw : Tended w)
    (h : step J w e = some w') (hin : w.InTime e) : Tended w' := by
  obtain ⟨m, hm, rfl⟩ := Option.map_eq_some_iff.1 h
  have hmembers := members_step hm hw.members
  cases e with
  | sweep =>
      obtain rfl := Option.some.inj hm
      refine ⟨hmembers, le_refl _, Nat.le_add_right _ _, ?_⟩
      intro roomId room' hroom' p hp
      -- what is left after a sweep has been active in the last 60 seconds:
      obtain ⟨room, hroom, hcases⟩ := sweep_lookup hroom'
      have hmem : p ∈ room.peers := by
        rcases hcases with rfl | ⟨peers, hsub, -, rfl⟩
        · exact hp
        · exact hsub.subset hp
      have hyoung := ((mem_swept_iff hw.members hroom hmem).1 ⟨room', hroom', hp⟩).1
      dsimp only
      omega
  | elapse d =>
      obtain rfl := Option.some.inj hm
      exact ⟨hmembers, hw.past.trans (Nat.le_add_right _ _), hin, hw.entries⟩
  | _ =>
      have hnow := step_now hm (by simp)
      refine ⟨hmembers, ?_, ?_, ?_⟩
      · rw [hnow]
        exact hw.past
      · rw [hnow]
        exact hw.sweep
      · intro roomId room' hroom' p' hp'
        rcases step_aged hm (by simp) roomId room' hroom' p' hp' with heq | ⟨room, hroom, p, hp, heq⟩
        · have hpast := hw.past
          dsimp only
          omega
        · rw [← heq]
          exact hw.entries roomId room hroom p hp

end Swept

/-- As long as the eviction task comes every 30 seconds, no entry of the room map has been silent for 90
seconds. -/
theorem entries_recent (J : SerdeJson) (es : List Event)
    (h : Guarded (stepRel (Swept.step J)) Swept.InTime .start es) :
    Along (stepRel (Swept.step J)) Swept.Recent .start es := by
  apply along_of_inductive (I := Swept.Tended) (C := Swept.InTime)
  · intro w e w' hw hstep hin
    exact Swept.tended_step hw hstep hin
  · intro w hw roomId room hroom p hp
    have hentry := hw.entries roomId room hroom p hp
    have hsweep := hw.sweep
    omega
  · refine ⟨members_start, le_refl _, Nat.zero_le _, ?_⟩
    intro roomId room hroom
    rw [show Swept.start.relay.rooms.lookup roomId = none from lookup_start roomId] at hroom
    cases hroom
  · exact h

/-- A peer that never answers is in its room for almost 90 seconds. -/
theorem entries_recent_silent :
    Along (stepRel (Swept.step Sample.json)) Swept.Recent .start
      (joins 0 [10] ++ [.elapse 29999, .sweep, .elapse 30000, .sweep, .elapse 30000]) :=
  entries_recent Sample.json _ (guarded_of_checkAll (by decide +kernel))

end Ktty.Relay
