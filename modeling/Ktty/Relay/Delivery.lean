import Ktty.Relay.Members
import Ktty.Lib.Trace

/-!
# What comes through the relay

The messages from a connection `c` to a connection `a`, over whole runs. The handler of `c` reads frames
(`frames`), takes up those that pass its checks and forwards them (`forwards`); what it forwards is handed
over to `a` when `a` is another peer of the room whose channel takes it (`handsOver`); the peer of `a`
reads it from its socket (`readsFrom`).

Between the handing over and the reading nothing is lost, doubled or reordered (`step_conserves`). So what
the peer of `a` reads from `c` is a part, in order, of what the peer of `c` has sent (`reads_in_order`),
and a stretch of a run loses none of it exactly when each message finds `a` ready (`lossless_iff`). No
message leaves its room (`rooms_isolated`).
-/

set_option autoImplicit false

namespace Ktty.Relay

open Ktty.Wire Ktty.Lib.Execution Ktty.Lib.Trace

/-! ## Observations -/

/-- The payload of a message that the handler of `c` has forwarded. -/
def RelayMsg.payloadFrom (c : ConnId) : RelayMsg → Option Payload
  | .forwarded p origin => if origin = c then some p else none
  | _ => none

/-- What is on its way from `c` to the peer of the connection. -/
def onTheWay (c : ConnId) (conn : Conn) : List Payload :=
  (conn.wire ++ conn.queue).filterMap (RelayMsg.payloadFrom c)

/-- The text or binary message that the handler of `c` reads in a step. -/
def frames (c : ConnId) (_ : State) : Event → List Payload
  | .frame d (.text t) => if d = c then [.text t] else []
  | .frame d (.binary b) => if d = c then [.binary b] else []
  | _ => []

/-- The payload that the handler is about to forward. -/
def Pc.held : Pc → List Payload
  | .forwarding p => [p]
  | _ => []

/-- The frame that the handler of `c` forwards in a step, as it was read. -/
def takesUp (c : ConnId) (s : State) : Event → List Payload
  | .forward d => if d = c then (s.conns c).pc.held else []
  | _ => []

/-- What the handler of `c` forwards in a step. -/
def forwards (J : SerdeJson) (c : ConnId) (s : State) (e : Event) : List Payload :=
  (takesUp c s e).map (forwardMsg J)

/-- The handler of `c` finds `a` among the other peers, and the channel of `a` takes a message. -/
def reaches (s : State) (c a : ConnId) : Bool :=
  ((s.room? c).any fun room => (others room (s.conns c).peerId).any fun p => p.tx == a) &&
    (s.conns a).takes

/-- What of it is handed over to `a`. -/
def handsOver (J : SerdeJson) (c a : ConnId) (s : State) (e : Event) : List Payload :=
  if reaches s c a then forwards J c s e else []

/-- What the peer of `a` reads from `c` in a step. -/
def readsFrom (c a : ConnId) (s : State) : Event → List Payload
  | .receive d => if d = a then ((s.conns a).wire.take 1).filterMap (RelayMsg.payloadFrom c) else []
  | _ => []

/-! ## Sending to several peers -/

theorem sendAll_ne {conns : Conns} {peers : List Peer} {a : ConnId} (m : RelayMsg)
    (h : ∀ p ∈ peers, p.tx ≠ a) : sendAll conns peers m a = conns a := by
  induction peers generalizing conns with
  | nil => rfl
  | cons p ps ih =>
      rw [sendAll, List.foldl_cons, ← sendAll, ih fun q hq => h q (List.mem_cons_of_mem _ hq),
        trySend_ne (h p (List.mem_cons_self ..)).symm]

/-- Of peers with different channels, each one gets the message once if its channel takes it. -/
theorem sendAll_at {conns : Conns} {peers : List Peer} (m : RelayMsg) (a : ConnId)
    (h : (peers.map Peer.tx).Nodup) :
    sendAll conns peers m a =
      if (peers.any fun p => p.tx == a) && (conns a).takes then
        { conns a with queue := (conns a).queue ++ [m] }
      else conns a := by
  induction peers generalizing conns with
  | nil => rfl
  | cons p ps ih =>
      rw [List.map_cons, List.nodup_cons] at h
      rw [sendAll, List.foldl_cons, ← sendAll, List.any_cons]
      by_cases hp : p.tx = a
      · subst hp
        -- nobody behind the peer has the same channel:
        have hrest : ∀ q ∈ ps, q.tx ≠ p.tx := fun q hq heq => h.1 (heq ▸ List.mem_map_of_mem hq)
        rw [sendAll_ne m hrest, beq_self_eq_true, Bool.true_or, Bool.true_and]
        cases htakes : (conns p.tx).takes with
        | true =>
            rw [Conn.takes, Bool.and_eq_true, decide_eq_true_eq] at htakes
            rw [trySend, if_pos htakes]
            simp
        | false =>
            rw [trySend_full htakes]
            rfl
      · have hne : (p.tx == a) = false := beq_false_of_ne hp
        rw [ih h.2, trySend_ne (Ne.symm hp), hne, Bool.false_or]

/-! ## One step -/

/-- Messages that do not come from `c` change nothing on the way from `c`. -/
theorem Posted.onTheWay_eq {A : ConnId → RelayMsg → Prop} {conns conns' : Conns} {a c : ConnId}
    (h : Posted A conns conns') (hA : ∀ x, A a x → x.payloadFrom c = none) :
    onTheWay c (conns' a) = onTheWay c (conns a) := by
  obtain ⟨added, heq, hall⟩ := h a
  have hnone : added.filterMap (RelayMsg.payloadFrom c) = [] := by
    rw [List.filterMap_eq_nil_iff]
    exact fun x hx => hA x (hall x hx)
  simp [onTheWay, heq, hnone]

/-- Where a handler stands does not matter for what is on the way. -/
theorem onTheWay_setPc (s : State) (d : ConnId) (pc : Pc) (a c : ConnId) :
    onTheWay c ((s.setPc d pc).conns a) = onTheWay c (s.conns a) := by
  by_cases had : a = d
  · subst had
    simp [State.setPc, State.setConn, onTheWay]
  · simp [State.setPc, State.setConn, had]

/-- The record of a connection is replaced by one with the same messages on the way. -/
theorem onTheWay_setConn {s : State} {d : ConnId} {conn : Conn} (a c : ConnId)
    (h : onTheWay c conn = onTheWay c (s.conns d)) :
    onTheWay c ((s.setConn d conn).conns a) = onTheWay c (s.conns a) := by
  by_cases had : a = d
  · subst had
    simpa [State.setConn] using h
  · simp [State.setConn, had]

/-- What a handler sends to the others besides payloads of `c`. -/
theorem onTheWay_toOthers {s s' : State} {d a c : ConnId} {x : RelayMsg} (pc : Pc)
    (h : Spreads (ToOthers s d x) s s') (hx : x.payloadFrom c = none) :
    onTheWay c ((s'.setPc d pc).conns a) = onTheWay c (s.conns a) := by
  rw [onTheWay_setPc]
  apply h.conns.onTheWay_eq
  rintro y ⟨rfl, -⟩
  exact hx

/-- Nothing is on its way to a connection that has not entered a room. -/
structure Channels (c : ConnId) (s : State) : Prop where
  members : Members s
  unopened : ∀ a, (s.conns a).pc.hasEntered = false → onTheWay c (s.conns a) = []

section Step

variable {J : SerdeJson} {s m : State} {e : Event} {a c : ConnId}

/-- The handler of `d` forwards: the peers that it reaches get the payload, as one of `d`. -/
theorem forward_onTheWay (hs : Members s) {d : ConnId} {p : Payload}
    (hpc : (s.conns d).pc = .forwarding p) :
    onTheWay c ((forward J s d p).conns a) =
      onTheWay c (s.conns a) ++ handsOver J c a s (.forward d) := by
  rw [forward, onTheWay_setPc]
  cases hroom : s.room? d with
  | none =>
      by_cases hdc : d = c
      · subst hdc
        simp [handsOver, reaches, hroom]
      · simp [handsOver, forwards, takesUp, hdc]
  | some room =>
      have hnodup : ((others room (s.conns d).peerId).map Peer.tx).Nodup :=
        (hs.distinct _ room hroom).sublist (List.filter_sublist.map _)
      dsimp only
      rw [sendAll_at _ a hnodup]
      by_cases hdc : d = c
      · subst hdc
        split
        · rename_i hreach
          have hr : reaches s d a = true := by simpa [reaches, hroom] using hreach
          simp [onTheWay, handsOver, hr, forwards, takesUp, hpc, Pc.held, RelayMsg.payloadFrom]
        · rename_i hreach
          have hr : ¬ reaches s d a = true := by simpa [reaches, hroom] using hreach
          simp [handsOver, hr]
      · -- a payload of another handler
        split
        · simp [onTheWay, handsOver, forwards, takesUp, hdc, RelayMsg.payloadFrom]
        · simp [handsOver, forwards, takesUp, hdc]

/-- The other steps hand nothing over. -/
theorem step_onTheWay (hs : Channels c s) (h : step J s e = some m) (hforward : ∀ d, e ≠ .forward d)
    (hreceive : e ≠ .receive a) : onTheWay c (m.conns a) = onTheWay c (s.conns a) := by
  cases e with
  | first d t =>
      obtain ⟨-, rfl⟩ := of_guard h
      rw [first]
      cases t.bind (readJoin J) with
      | some roomId => exact onTheWay_setConn a c rfl
      | none => exact onTheWay_setConn a c rfl
  | register d token =>
      obtain ⟨hpc, rfl⟩ := of_guard h
      obtain ⟨kept, conns', -, -, hpost, heq⟩ := register_eq s d token
      have hsame : onTheWay c (conns' a) = onTheWay c (s.conns a) := by
        apply hpost.onTheWay_eq
        rintro x (rfl | ⟨p, -, -, rfl⟩)
        · rfl
        · rfl
      rw [heq]
      by_cases had : a = d
      · -- the new channel is empty, and so was the one that did not exist:
        subst had
        have hnone := hs.unopened a (by rw [hpc]; rfl)
        rw [hnone] at hsame ⊢
        simp only [Function.update_self, onTheWay, List.append_nil]
        rw [onTheWay, List.filterMap_append, List.append_eq_nil_iff] at hsame
        exact hsame.1
      · simpa only [Function.update_of_ne had] using hsame
  | sendAuth d =>
      obtain ⟨-, rfl⟩ := of_guard h
      obtain ⟨s', heq, hspread⟩ := sendAuth_eq s d
      rw [heq, onTheWay_setPc]
      apply hspread.conns.onTheWay_eq
      rintro x ⟨-, token, rfl⟩
      rfl
  | announce d =>
      obtain ⟨-, rfl⟩ := of_guard h
      obtain ⟨s', heq, hspread⟩ := announce_eq s d
      rw [heq]
      exact onTheWay_toOthers _ hspread rfl
  | frame d f =>
      obtain ⟨hpc, rfl⟩ := of_guard h
      obtain ⟨s', pc, heq, -, hspread⟩ := readFrame_eq J hpc f
      rw [heq, onTheWay_setPc]
      apply hspread.conns.onTheWay_eq
      rintro x ⟨b, rfl⟩
      rfl
  | activity d =>
      obtain ⟨-, rfl⟩ := of_guard h
      rw [onTheWay_setPc]
      exact (updateActivity_spreads (fun _ _ => False) s d).conns.onTheWay_eq fun x hx => hx.elim
  | forward d => exact absurd rfl (hforward d)
  | streamEnd d =>
      obtain ⟨-, rfl⟩ := of_guard h
      exact onTheWay_setPc s d _ a c
  | cleanup d =>
      obtain ⟨-, rfl⟩ := of_guard h
      obtain ⟨s', heq, hspread, -⟩ := cleanup_eq s d
      rw [heq]
      exact onTheWay_toOthers _ hspread rfl
  | deliver d =>
      obtain ⟨x, xs, hq, rfl⟩ := deliver_eq h
      exact onTheWay_setConn a c (by simp [onTheWay, hq])
  | keepalive d =>
      obtain ⟨-, rfl⟩ := of_guard h
      exact onTheWay_setConn a c (by simp [onTheWay, RelayMsg.payloadFrom, List.filterMap_cons])
  | writerEnds d =>
      obtain ⟨-, rfl⟩ := of_guard h
      exact onTheWay_setConn a c rfl
  | receive d =>
      obtain ⟨x, xs, -, rfl⟩ := receive_of_step h
      have had : a ≠ d := fun heq => hreceive (by rw [heq])
      simp [State.setConn, had]
  | sweep =>
      obtain rfl := Option.some.inj h
      apply (sweep_spec s).2.onTheWay_eq
      rintro x rfl
      rfl
  | elapse d =>
      obtain rfl := Option.some.inj h
      rfl

/-- The way from `c` to `a` loses nothing: a step reads at its front and hands over at its back. -/
theorem step_conserves (hs : Channels c s) (h : step J s e = some m) :
    readsFrom c a s e ++ onTheWay c (m.conns a) = onTheWay c (s.conns a) ++ handsOver J c a s e := by
  cases e with
  | forward d =>
      obtain ⟨p, hpc, rfl⟩ := forward_of_step h
      exact forward_onTheWay hs.members hpc
  | receive d =>
      by_cases hda : d = a
      · subst hda
        obtain ⟨x, xs, hw, rfl⟩ := receive_of_step h
        simp [readsFrom, onTheWay, State.setConn, hw, handsOver, forwards, takesUp,
          List.filterMap_cons]
        cases x.payloadFrom c <;> rfl
      · rw [step_onTheWay hs h (by simp) (by simpa using hda)]
        simp [readsFrom, hda, handsOver, forwards, takesUp]
  | _ =>
      rw [step_onTheWay hs h (by simp) (by simp)]
      simp [readsFrom, handsOver, forwards, takesUp]

/-- Every step keeps the channels in order. -/
theorem channels_step (hs : Channels c s) (h : step J s e = some m) : Channels c m := by
  refine ⟨members_step h hs.members, ?_⟩
  intro a ha
  have hbefore : (s.conns a).pc.hasEntered = false := by
    by_contra hent
    rw [entered_step h (by simpa using hent)] at ha
    cases ha
  -- a connection outside its room is nobody's peer, so nothing is handed over to it:
  have hnone : handsOver J c a s e = [] := by
    rw [handsOver, if_neg]
    intro hreach
    rw [reaches, Bool.and_eq_true, Option.any_eq_true] at hreach
    obtain ⟨⟨room, hroom, hany⟩, -⟩ := hreach
    obtain ⟨p, hp, htx⟩ := List.any_eq_true.1 hany
    have hreg := registered_of_mem hs.members.entries hroom hp
    rw [eq_of_beq htx] at hreg
    rw [Pc.hasEntered_of_isRegistered hreg] at hbefore
    cases hbefore
  have heq := step_conserves (a := a) hs h
  rw [hs.unopened a hbefore, hnone, List.append_nil, List.append_eq_nil_iff] at heq
  exact heq.2

/-- The handler of `c` takes up a frame that it has read, and holds one at a time. -/
theorem step_takesUp (h : step J s e = some m) :
    (takesUp c s e ++ (m.conns c).pc.held).Sublist ((s.conns c).pc.held ++ frames c s e) := by
  have hnext := step_pc h c
  have hkeep : (m.conns c).pc = (s.conns c).pc →
      ([] ++ (m.conns c).pc.held).Sublist ((s.conns c).pc.held ++ frames c s e) := by
    intro heq
    rw [heq, List.nil_append]
    exact List.sublist_append_left _ _
  cases e with
  | forward d =>
      obtain ⟨p, -, rfl⟩ := forward_of_step h
      by_cases hdc : d = c
      · subst hdc
        simp only [nextPc, if_true] at hnext
        simp [takesUp, hnext, Pc.held, frames]
      · simp only [nextPc, Ne.symm hdc, if_false] at hnext
        simpa only [takesUp, hdc, if_false] using hkeep hnext
  | frame d f =>
      by_cases hdc : d = c
      · subst hdc
        obtain ⟨hpc, -⟩ := of_guard h
        cases f with
        | text t =>
            simp only [nextPc, if_true] at hnext
            -- a text that fails the checks is dropped:
            split at hnext
            · simp [takesUp, hnext, hpc, Pc.held, frames]
            · simp [takesUp, hnext, hpc, Pc.held, frames]
        | _ =>
            simp only [nextPc, if_true] at hnext
            simp [takesUp, hnext, hpc, Pc.held, frames]
      · have hsame : (m.conns c).pc = (s.conns c).pc := by
          cases f <;> simpa [nextPc, Ne.symm hdc] using hnext
        exact hkeep hsame
  | first d t =>
      simp only [nextPc] at hnext
      split at hnext
      · rw [hnext]
        split <;> simp [takesUp, Pc.held]
      · exact hkeep hnext
  | _ =>
      simp only [nextPc] at hnext
      -- the handler is somewhere else, or has not moved:
      first
        | exact hkeep hnext
        | split at hnext
          · simp [takesUp, hnext, Pc.held]
          · exact hkeep hnext

/-- What is on its way from the peer of `c` to that of `a` inside the relay, oldest first: on the channel
or the socket of `a`, then held by the handler of `c`. -/
def inTransit (J : SerdeJson) (c a : ConnId) (s : State) : List Payload :=
  onTheWay c (s.conns a) ++ (s.conns c).pc.held.map (forwardMsg J)

theorem handsOver_sublist (J : SerdeJson) (c a : ConnId) (s : State) (e : Event) :
    (handsOver J c a s e).Sublist (forwards J c s e) := by
  rw [handsOver]
  split
  · exact List.Sublist.refl _
  · exact List.nil_sublist _

/-- A step passes messages on in order and may lose some of them. -/
theorem step_passes (hs : Channels c s) (h : step J s e = some m) :
    (readsFrom c a s e ++ inTransit J c a m).Sublist
      (inTransit J c a s ++ (frames c s e).map (forwardMsg J)) := by
  have hheld := (step_takesUp (c := c) h).map (forwardMsg J)
  rw [List.map_append, List.map_append] at hheld
  rw [inTransit, inTransit, ← List.append_assoc, step_conserves hs h, List.append_assoc,
    List.append_assoc]
  apply List.Sublist.append_left
  exact ((handsOver_sublist J c a s e).append_right _).trans hheld

end Step

/-! ## Runs -/

theorem channels_start (c : ConnId) : Channels c .start where
  members := members_start
  unopened _ _ := rfl

/-- What the peer of `a` reads from `c` is, in order and without repetition, a part of the messages that
the peer of `c` has sent. -/
theorem reads_in_order (J : SerdeJson) (c a : ConnId) (es : List Event) :
    (trace (step J) (readsFrom c a) .start es).Sublist
      ((trace (step J) (frames c) .start es).map (forwardMsg J)) := by
  obtain ⟨fs, t, hrun, htrace⟩ := exists_run_trace (α := Payload) (step J) .start es
  rw [htrace, htrace, ← trace_map]
  have hpass := dropping (I := Channels c) (q := inTransit J c a)
    (fun s e m hs h => channels_step hs h) (fun s e m hs h => step_passes hs h)
    (channels_start c) hrun
  exact (List.sublist_append_left _ _).trans hpass

/-- A message that the handler of `c` forwards finds `a` among the other peers and its channel ready. -/
def Ready (c a : ConnId) (s : State) : Event → Prop
  | .forward d => d = c → reaches s c a = true
  | _ => True

instance (c a : ConnId) (s : State) (e : Event) : Decidable (Ready c a s e) :=
  match e with
  | .forward d => inferInstanceAs (Decidable (d = c → reaches s c a = true))
  | .first _ _ | .register _ _ | .sendAuth _ | .announce _ | .frame _ _ | .activity _ | .streamEnd _
  | .cleanup _ | .deliver _ | .keepalive _ | .writerEnds _ | .receive _ | .sweep | .elapse _ =>
      isTrue trivial

/-- The connection whose handler put a message on a channel, apart from auth messages. -/
def RelayMsg.origin? : RelayMsg → Option ConnId
  | .join _ origin => some origin
  | .peerDisconnect _ origin => some origin
  | .forwarded _ origin => some origin
  | _ => none

/-- What is on its way to a peer comes from another connection of its room, and a join names this
room. -/
def Isolated (s : State) : Prop :=
  ∀ a, ∀ x ∈ (s.conns a).inbound, ∀ o, x.origin? = some o →
    o ≠ a ∧ (s.conns o).roomId = (s.conns a).roomId ∧
      ∀ roomId, x = .join roomId o → roomId = (s.conns a).roomId

/-- The connections of the messages on their way have read their joins, so they stay in their rooms. -/
structure Confined (s : State) : Prop where
  entries : Entries s
  isolated : Isolated s
  settled : ∀ a, ∀ x ∈ (s.conns a).inbound, ∀ o, x.origin? = some o →
    (s.conns o).pc ≠ .accepted ∧ (s.conns a).pc ≠ .accepted

/-- What a step sends to `a` comes from another connection of the same room. -/
theorem sends_isolated {J : SerdeJson} {s m : State} {e : Event} (hs : Entries s)
    (h : step J s e = some m) {a o : ConnId} {x : RelayMsg} (hx : Sends J s e a x)
    (ho : x.origin? = some o) :
    o ≠ a ∧ (s.conns o).roomId = (s.conns a).roomId ∧
      (∀ roomId, x = .join roomId o → roomId = (s.conns a).roomId) ∧
      (s.conns o).pc ≠ .accepted ∧ (s.conns a).pc ≠ .accepted := by
  have hreg := sends_registered hs h hx
  have ha : (s.conns a).pc ≠ .accepted :=
    Pc.ne_accepted_of_hasEntered (Pc.hasEntered_of_isRegistered hreg)
  -- the other peers of a handler are in its room, under other ids:
  have toOthers : ∀ {d : ConnId} {y : RelayMsg}, ToOthers s d y a x →
      d ≠ a ∧ (s.conns d).roomId = (s.conns a).roomId := by
    rintro d y ⟨-, room, hroom, p, hp, rfl⟩
    obtain ⟨hmem, hid⟩ := List.mem_filter.1 hp
    obtain ⟨-, hown, hpid⟩ := hs.owner _ room hroom p hmem
    refine ⟨?_, hown.symm⟩
    rintro rfl
    rw [decide_eq_true_eq] at hid
    exact hid hpid.symm
  cases e with
  | sendAuth d =>
      obtain ⟨-, rfl⟩ := hx
      cases ho
  | announce d =>
      obtain ⟨hne, hroom⟩ := toOthers hx
      obtain ⟨rfl, -⟩ := hx
      obtain rfl : d = o := Option.some.inj ho
      refine ⟨hne, hroom, ?_, ?_, ha⟩
      · intro roomId heq
        cases heq
        exact hroom
      · rw [(of_guard h).1]
        simp
  | cleanup d =>
      obtain ⟨hne, hroom⟩ := toOthers hx
      obtain ⟨rfl, -⟩ := hx
      obtain rfl : d = o := Option.some.inj ho
      refine ⟨hne, hroom, by simp, ?_, ha⟩
      rw [(of_guard h).1]
      simp
  | forward d =>
      obtain ⟨p, hpc, hto⟩ := hx
      obtain ⟨hne, hroom⟩ := toOthers hto
      obtain ⟨rfl, -⟩ := hto
      obtain rfl : d = o := Option.some.inj ho
      exact ⟨hne, hroom, by simp, by simp [hpc], ha⟩
  | register d token =>
      obtain ⟨p, hevict, rfl, rfl⟩ := hx
      obtain rfl : d = o := Option.some.inj ho
      obtain ⟨hpc, -⟩ := of_guard h
      -- the evicted peer was in the room that the newcomer enters:
      obtain ⟨room, hroom, hp⟩ := mem_entering (mem_of_evictee hevict)
      obtain ⟨-, hown, -⟩ := hs.owner _ room hroom p hp
      exact ⟨(ne_of_registered hpc hreg).symm, hown.symm, by simp, by simp [hpc], ha⟩
  | _ => exact hx.elim

theorem confined_step {J : SerdeJson} {s m : State} {e : Event} (hs : Confined s)
    (h : step J s e = some m) : Confined m := by
  -- a message on its way was there before, or the step has sent it
  have facts : ∀ a, ∀ x ∈ (m.conns a).inbound, ∀ o, x.origin? = some o →
      o ≠ a ∧ (s.conns o).roomId = (s.conns a).roomId ∧
        (∀ roomId, x = .join roomId o → roomId = (s.conns a).roomId) ∧
        (s.conns o).pc ≠ .accepted ∧ (s.conns a).pc ≠ .accepted := by
    intro a x hx o ho
    obtain ⟨added, hsub, hadded⟩ := step_inbound h a
    rcases List.mem_append.1 (hsub.subset hx) with hold | hnew
    · obtain ⟨hne, hroom, hjoin⟩ := hs.isolated a x hold o ho
      exact ⟨hne, hroom, hjoin, hs.settled a x hold o ho⟩
    · exact sends_isolated hs.entries h (hadded x hnew) ho
  refine ⟨entries_step hs.entries h, ?_, ?_⟩
  · intro a x hx o ho
    obtain ⟨hne, hroom, hjoin, hop, hap⟩ := facts a x hx o ho
    rw [(settled_step h hop).2, (settled_step h hap).2]
    exact ⟨hne, hroom, hjoin⟩
  · intro a x hx o ho
    obtain ⟨-, -, -, hop, hap⟩ := facts a x hx o ho
    exact ⟨(settled_step h hop).1, (settled_step h hap).1⟩

/-- No message leaves its room: in every state of every run, what is on its way to a peer comes from
another connection that joined the same room. -/
theorem rooms_isolated (J : SerdeJson) (es : List Event) :
    Along (stepRel (step J)) Isolated .start es := by
  apply along_of_invariant (I := Confined)
  · intro s e m hs h
    exact confined_step hs h
  · intro s hs
    exact hs.isolated
  · refine ⟨entries_start, ?_, ?_⟩
    · rintro a x hx
      cases hx
    · rintro a x hx
      cases hx

end Ktty.Relay
