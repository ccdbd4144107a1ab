import Ktty.Relay.Members

/-!
# The first text

A handler enters its room, sends its own auth message and notifies the other peers in three steps, and
other handlers can run in between. `Watched` records the first text that came onto the channel of each
connection since it entered its room. `first_of_greeted` shows that it is the connection's auth message
in the runs in which nobody sends a text to a peer that has not yet been sent its auth message, and no
auth message meets a full channel.
-/

set_option autoImplicit false

namespace Ktty.Relay

open Ktty.Wire Ktty.Lib.Execution

/-- The message is a text frame. -/
def RelayMsg.isText : RelayMsg → Bool
  | .auth _ => true
  | .join _ _ => true
  | .peerDisconnect _ _ => true
  | .forwarded (.text _) _ => true
  | .forwarded (.binary _) _ => false
  | .ping => false
  | .pong _ => false

theorem RelayMsg.isSignal_of_isText {x : RelayMsg} (h : x.isText = true) : x.isSignal = true := by
  cases x with
  | ping => cases h
  | pong d => cases h
  | _ => rfl

/-- The messages that a step puts on the channel of `c`. -/
def placed (s m : State) (c : ConnId) : List RelayMsg :=
  (m.conns c).queue.drop (s.conns c).queue.length

/-- The relay with the first text on the channel of each connection. -/
structure Watched where
  relay : State
  firstText : ConnId → Option RelayMsg

namespace Watched

def start : Watched := { relay := .start, firstText := fun _ => none }

def step (J : SerdeJson) (w : Watched) (e : Event) : Option Watched :=
  (Relay.step J w.relay e).map fun m =>
    { relay := m
      firstText := fun c => (w.firstText c).or ((placed w.relay m c).find? RelayMsg.isText) }

end Watched

/-- The first text of every connection is its own auth message. -/
def FirstIsAuth (w : Watched) : Prop :=
  ∀ c x, w.firstText c = some x → x = .auth (w.relay.conns c).authToken

/-- The other peers in the room of `d` have been sent their auth messages. -/
def OthersGreeted (s : State) (d : ConnId) : Prop :=
  ∀ room, s.room? d = some room → ∀ p ∈ others room (s.conns d).peerId, (s.conns p.tx).pc ≠ .entered

/-- The condition on a step. -/
def InOrder (w : Watched) : Event → Prop
  | .announce d => OthersGreeted w.relay d
  | .cleanup d => OthersGreeted w.relay d
  | .forward d => ∀ t, (w.relay.conns d).pc = .forwarding (.text t) → OthersGreeted w.relay d
  -- the evicted peer has been sent its auth message
  | .register d _ => ∀ p, evictee w.relay d = some p → (w.relay.conns p.tx).pc ≠ .entered
  | .sendAuth c => (w.relay.conns c).takes = true
  | _ => True

instance (s : State) (d : ConnId) : Decidable (OthersGreeted s d) :=
  decidable_of_iff ((s.room? d).all fun room =>
      (others room (s.conns d).peerId).all fun p => (s.conns p.tx).pc != .entered) (by
    simp [OthersGreeted, Option.all_eq_true])

instance (w : Watched) (e : Event) : Decidable (InOrder w e) :=
  match e with
  | .announce d => inferInstanceAs (Decidable (OthersGreeted w.relay d))
  | .cleanup d => inferInstanceAs (Decidable (OthersGreeted w.relay d))
  | .forward d =>
      match hpc : (w.relay.conns d).pc with
      | .forwarding (.text _) => decidable_of_iff (OthersGreeted w.relay d) (by simp [InOrder, hpc])
      | .accepted | .joining | .entered | .announcing | .reading | .ponged | .closing | .done
      | .forwarding (.binary _) => isTrue (by simp [InOrder, hpc])
  | .register d _ =>
      decidable_of_iff ((evictee w.relay d).all fun p => (w.relay.conns p.tx).pc != .entered) (by
        simp [InOrder, Option.all_eq_true])
  | .sendAuth c => inferInstanceAs (Decidable ((w.relay.conns c).takes = true))
  | .first _ _ | .frame _ _ | .activity _ | .streamEnd _ | .deliver _ | .keepalive _ | .writerEnds _
  | .receive _ | .sweep | .elapse _ => isTrue trivial

/-! ## The invariant -/

structure Greeted (w : Watched) : Prop where
  entries : Entries w.relay
  /-- Nothing comes onto a channel that does not exist yet. -/
  early : ∀ c, (w.relay.conns c).pc.hasEntered = false → w.firstText c = none
  /-- A peer has got a text, or its auth message comes next. -/
  greeted : ∀ c, w.relay.registered c = true →
    (w.relay.conns c).pc = .entered ∨ (w.firstText c).isSome = true
  first : FirstIsAuth w

theorem ChannelStep.mem_placed {A : RelayMsg → Prop} {conn conn' : Conn}
    (h : ChannelStep A conn conn') {x : RelayMsg} (hx : x ∈ conn'.queue.drop conn.queue.length)
    (hsig : x.isSignal = true) : A x := by
  cases h with
  | posted added hq hw hall =>
      -- behind the old queue stands what the step has added:
      rw [hq, List.drop_left] at hx
      exact hall x hx hsig
  | opened hq hw =>
      rw [hq, List.drop_nil] at hx
      cases hx
  | delivered y hq hw =>
      rw [hq, List.drop_of_length_le (by simp)] at hx
      cases hx
  | pinged hq hw =>
      rw [hq, List.drop_length] at hx
      cases hx
  | received y hq hw =>
      rw [hq, List.drop_length] at hx
      cases hx

section Step

variable {J : SerdeJson} {w : Watched} {m : State} {e : Event}

/-- What a step in order sends as a text to a peer that stands before its auth message is this auth
message. -/
theorem sends_inOrder (horder : InOrder w e) {c : ConnId} {x : RelayMsg}
    (hx : Sends J w.relay e c x) (htext : x.isText = true)
    (hent : (w.relay.conns c).pc = .entered) : x = .auth (w.relay.conns c).authToken := by
  -- the peer stands before its auth message, so it is not among greeted ones:
  have toOthers : ∀ {d : ConnId} {y : RelayMsg}, OthersGreeted w.relay d → ¬ ToOthers w.relay d y c x := by
    rintro d y hgreeted ⟨-, room, hroom, p, hp, rfl⟩
    exact hgreeted room hroom p hp hent
  cases e with
  | sendAuth d =>
      obtain ⟨rfl, rfl⟩ := hx
      rfl
  | announce d => exact absurd hx (toOthers horder)
  | cleanup d => exact absurd hx (toOthers horder)
  | forward d =>
      obtain ⟨p, hpc, hto⟩ := hx
      cases p with
      | text t => exact absurd hto (toOthers (horder t hpc))
      | binary b =>
          -- a binary message is no text:
          rw [hto.1] at htext
          cases htext
  | register d token =>
      obtain ⟨p, hevict, rfl, -⟩ := hx
      exact absurd hent (horder p hevict)
  | _ => exact hx.elim

/-- A handler that has entered its room goes on by sending its auth message. -/
theorem entered_moves {s : State} (h : step J s e = some m) {c : ConnId}
    (hpc : (s.conns c).pc = .entered) : (m.conns c).pc = .entered ∨ e = .sendAuth c := by
  have hnext := step_pc h c
  -- a step of a handler at another point is a step of another handler:
  have stays : ∀ {d : ConnId} {pc pc' : Pc}, (s.conns d).pc = pc → pc ≠ .entered →
      (m.conns c).pc = (if c = d then pc' else (s.conns c).pc) → (m.conns c).pc = .entered := by
    intro d pc pc' hd hne heq
    have hcd : c ≠ d := by
      rintro rfl
      exact hne (hd.symm.trans hpc)
    rw [heq, if_neg hcd, hpc]
  cases e with
  | sendAuth d =>
      by_cases hcd : c = d
      · exact Or.inr (by rw [hcd])
      · left
        rw [hnext]
        simp [nextPc, hcd, hpc]
  | first d t => exact Or.inl (stays (of_guard h).1 (by simp) hnext)
  | register d token => exact Or.inl (stays (of_guard h).1 (by simp) hnext)
  | announce d => exact Or.inl (stays (of_guard h).1 (by simp) hnext)
  | frame d f => cases f <;> exact Or.inl (stays (of_guard h).1 (by simp) hnext)
  | activity d => exact Or.inl (stays (of_guard h).1 (by simp) hnext)
  | forward d =>
      obtain ⟨p, hd, -⟩ := forward_of_step h
      exact Or.inl (stays hd (by simp) hnext)
  | streamEnd d => exact Or.inl (stays (of_guard h).1 (by simp) hnext)
  | cleanup d => exact Or.inl (stays (of_guard h).1 (by simp) hnext)
  | _ => exact Or.inl (hnext.trans hpc)

/-- An auth message that meets an open channel is placed. -/
theorem placed_sendAuth {s : State} {c : ConnId} (htakes : (s.conns c).takes = true) :
    placed s (sendAuth s c) c = [.auth (s.conns c).authToken] := by
  rw [Conn.takes, Bool.and_eq_true, decide_eq_true_eq] at htakes
  simp [placed, sendAuth, State.setPc, State.setConn, trySend, htakes]

/-- A text that appears on a channel was sent there by the event. -/
theorem sends_of_placed {s : State} (h : step J s e = some m) {c : ConnId} {x : RelayMsg}
    (hx : (placed s m c).find? RelayMsg.isText = some x) : Sends J s e c x ∧ x.isText = true := by
  have htext := List.find?_some hx
  have hmem := List.mem_of_find?_eq_some hx
  exact ⟨(step_channel h c).mem_placed hmem (RelayMsg.isSignal_of_isText htext), htext⟩

/-- A registered connection was registered before, or it has just entered. -/
theorem registered_before {s : State} (h : step J s e = some m) {c : ConnId}
    (hc : m.registered c = true) : s.registered c = true ∨ (m.conns c).pc = .entered := by
  rcases register_or_quiet h with ⟨d, token, rfl, hpc, rfl⟩ | ⟨-, hquiet⟩
  · rcases (registered_register hpc).1 hc with rfl | hreg
    · exact Or.inr register_conns_self.1
    · exact Or.inl hreg
  · exact Or.inl (hquiet.held c hc).1

/-- Before it enters, a connection gets no text. -/
theorem early_step (hw : Greeted w) (h : step J w.relay e = some m) {c : ConnId}
    (hc : (m.conns c).pc.hasEntered = false) :
    (w.firstText c).or ((placed w.relay m c).find? RelayMsg.isText) = none := by
  have hbefore : (w.relay.conns c).pc.hasEntered = false := by
    by_contra hent
    rw [entered_step h (by simpa using hent)] at hc
    cases hc
  rw [hw.early c hbefore, Option.none_or]
  cases hfind : (placed w.relay m c).find? RelayMsg.isText with
  | none => rfl
  | some x =>
      have hreg := sends_registered hw.entries h (sends_of_placed h hfind).1
      rw [Pc.hasEntered_of_isRegistered hreg] at hbefore
      cases hbefore

/-- A registered connection has got a text, or its auth message comes next. -/
theorem isSome_step (hw : Greeted w) (horder : InOrder w e) (h : step J w.relay e = some m)
    {c : ConnId} (hc : m.registered c = true) :
    (m.conns c).pc = .entered ∨
      ((w.firstText c).or ((placed w.relay m c).find? RelayMsg.isText)).isSome = true := by
  rcases registered_before h hc with hreg | hent
  · rcases hw.greeted c hreg with hent | hsome
    · rcases entered_moves h hent with hstays | rfl
      · exact Or.inl hstays
      · -- the auth message is placed
        right
        obtain ⟨-, rfl⟩ := of_guard h
        rw [placed_sendAuth horder]
        cases w.firstText c <;> rfl
    · right
      obtain ⟨x, hx⟩ := Option.isSome_iff_exists.1 hsome
      rw [hx]
      rfl
  · exact Or.inl hent

/-- The first text stays the auth message: the token of a connection changes only when it enters. -/
theorem first_step (hw : Greeted w) (horder : InOrder w e) (h : step J w.relay e = some m)
    {c : ConnId} {x : RelayMsg}
    (hx : (w.firstText c).or ((placed w.relay m c).find? RelayMsg.isText) = some x) :
    x = .auth (m.conns c).authToken := by
  cases hfirst : w.firstText c with
  | some y =>
      rw [hfirst, Option.some_or] at hx
      obtain rfl := Option.some.inj hx
      have hent : (w.relay.conns c).pc ≠ .joining := by
        intro hpc
        have hearly := hw.early c (by rw [hpc]; rfl)
        rw [hfirst] at hearly
        cases hearly
      rw [authToken_step h hent]
      exact hw.first c y hfirst
  | none =>
      rw [hfirst, Option.none_or] at hx
      obtain ⟨hsends, htext⟩ := sends_of_placed h hx
      have hreg := sends_registered hw.entries h hsends
      have hent : (w.relay.conns c).pc ≠ .joining := by
        intro hpc
        rw [State.registered, hpc] at hreg
        cases hreg
      rw [authToken_step h hent]
      -- the first text comes now, so the peer had got none and stands before its auth message:
      rcases hw.greeted c hreg with hent | hsome
      · exact sends_inOrder horder hsends htext hent
      · rw [hfirst] at hsome
        cases hsome

theorem greeted_step (hw : Greeted w) (horder : InOrder w e) {w' : Watched}
    (h : w.step J e = some w') : Greeted w' := by
  rw [Watched.step, Option.map_eq_some_iff] at h
  obtain ⟨m, hm, rfl⟩ := h
  exact
    { entries := entries_step hw.entries hm
      early := fun c hc => early_step hw hm hc
      greeted := fun c hc => isSome_step hw horder hm hc
      first := fun c x hx => first_step hw horder hm hx }

end Step

/-! ## Runs -/

/-- In the runs whose steps are in order, the first text on every channel is the connection's own auth
message. -/
theorem first_of_greeted (J : SerdeJson) (es : List Event)
    (h : Guarded (stepRel (Watched.step J)) InOrder .start es) :
    Along (stepRel (Watched.step J)) FirstIsAuth .start es := by
  apply along_of_inductive (I := Greeted) (C := InOrder)
  · intro w e w' hw hstep horder
    exact greeted_step hw horder hstep
  · intro w hw
    exact hw.first
  · refine ⟨entries_start, fun c _ => rfl, fun c hc => ?_, fun c x hx => ?_⟩
    · cases hc
    · cases hx
  · exact h

/-- The handlers of connections 0 and 1 enter the room `r`, and 1 announces its join before 0 has sent
its auth message. -/
def overtakenRun : List Event :=
  [.first 0 (some (joinJson ['r']).encode), .register 0 [10]] ++ joins 1 [11] ++ [.sendAuth 0]

/-- Two connections that join one after the other. -/
theorem first_joins :
    (∃ w, Run (stepRel (Watched.step (.knowing [joinJson ['r']]))) .start
        (joins 0 [10] ++ joins 1 [11]) w ∧ (w.firstText 0).isSome = true) ∧
    Along (stepRel (Watched.step (.knowing [joinJson ['r']]))) FirstIsAuth .start
      (joins 0 [10] ++ joins 1 [11]) :=
  ⟨exists_run_of_exec (by decide +kernel),
    first_of_greeted _ _ (guarded_of_checkAll (by decide +kernel))⟩

/-- The first text on the channel of connection 0 is the join notification of connection 1. -/
theorem join_overtakes_auth :
    ∃ w, Run (stepRel (Watched.step (.knowing [joinJson ['r']]))) .start overtakenRun w ∧
      ¬ FirstIsAuth w := by
  refine ⟨_, run_of_exec rfl, fun h => ?_⟩
  have hauth := h 0 (.join ['r'] 1) rfl
  cases hauth

end Ktty.Relay
