import Ktty.Agent.Handshake
import Ktty.Agent.Preview

/-!
# Replies to the offer

`receiveReply` says how `perform_handshake` stands after one item of the stream: it waits, returns `Ok`
or `Err`, or panics. `handshakeRecv_phase` connects it to the run, which goes on in the bridge loop
after `Ok` and in the wait loop after `Err`.

A reply can fail in the JSON reader, in base64 and in the conversion to a ciphertext. The first two end
in `Err` or in further waiting, the last one in a panic of `from_slice`, and a text whose log line is cut
inside a character panics before it is read. `replies_handled_iff` says that these two are the only
causes.
-/

set_option autoImplicit false

namespace Ktty.Agent

open Ktty.Wire Ktty.Crypto Ktty.Lib.Execution

/-- The length of an ML-KEM 768 ciphertext. -/
def CIPHERTEXT_LEN : Nat := 1088

/-- The KEM is ML-KEM 768: `from_slice` panics unless the slice has the length of the type, and
`decapsulate` accepts every ciphertext of this length. -/
def IsMlKem768 (P : Primitives Bytes Text) : Prop :=
  ∀ dk ct, (P.mlkemDecapsulate dk ct).isSome = true ↔ ct.length = CIPHERTEXT_LEN

/-- How `perform_handshake` stands. -/
inductive HandshakeStatus where
  | waiting
  | ok (key : Bytes)
  | err
  | panicked
  deriving DecidableEq

/-- One item in the receive loop of `perform_handshake`, which holds the key `dk`; `alive` says whether
the send channel is open. -/
def receiveReply (S : Session) (dk : Bytes) (alive : Bool) : WsItem → HandshakeStatus
  | .text t =>
      if !previewOk 80 t then .panicked
      else
        match (S.crates.json.fromStr t).bind RawMessage.deserialize with
        | none => .waiting
        | some raw =>
            match handshakeReply S.crates.prim dk raw with
            | .ignored => .waiting
            | .failed => .err
            | .panicked => .panicked
            -- the HMAC is sent with `?`
            | .derived key => if alive then .ok key else .err
  | .error => .err
  | .ended => .err
  | _ => .waiting

/-- How `Session::run` goes on. -/
def HandshakeStatus.resume (S : Session) (dk : Bytes) : HandshakeStatus → Phase
  | .waiting => .handshake dk
  | .ok key => .bridge key (sessionId S.crates.prim key)
  | .err => .wait true
  | .panicked => .crashed

/-- The run is inside its reconnect loop. -/
def Phase.inReconnectLoop : Phase → Bool
  | .wait _ => true
  | .boot => true
  | .offer => true
  | .handshake _ => true
  | .bridge _ _ => true
  | _ => false

/-- The decoded ciphertext of a text that is a handshake message with one. -/
def replyCiphertext (L : Crates) (t : Text) : Option Bytes := do
  let raw ← (L.json.fromStr t).bind RawMessage.deserialize
  if raw.isHandshake then HandshakeRole.ciphertextOf L.prim raw else none

/-- `perform_handshake` makes no crash of an item. -/
structure ReplyHandled (S : Session) (st : RunState) (dk : Bytes) (item : WsItem) : Prop where
  /-- It keeps waiting or returns. -/
  returns : receiveReply S dk st.writerAlive item ≠ .panicked
  /-- The run goes on accordingly, in its reconnect loop. -/
  goesOn : ∃ m, S.next st (.ws item) = some m ∧
    m.phase = (receiveReply S dk st.writerAlive item).resume S dk ∧ m.phase.inReconnectLoop = true
  /-- A ciphertext of the wrong length is an error. -/
  wrongLength : ∀ t ct, item = .text t → replyCiphertext S.crates t = some ct →
    ct.length ≠ CIPHERTEXT_LEN → receiveReply S dk st.writerAlive item = .err

/-- What `perform_handshake` receives in a step is handled. -/
def HandlesReply (S : Session) (st : RunState) (e : Event) : Prop :=
  ∀ dk item, st.phase = .handshake dk → e = .ws item → ReplyHandled S st dk item

/-- The condition on a step: the log line of a text that `perform_handshake` receives is cut between two
characters, and a ciphertext in it that is base64 has the right length. -/
def ReplyFits (S : Session) (st : RunState) : Event → Prop
  | .ws (.text t) => st.phase.inHandshake = true →
      previewOk 80 t = true ∧
        ∀ ct, replyCiphertext S.crates t = some ct → ct.length = CIPHERTEXT_LEN
  | _ => True

/-! ## One item -/

section Step

variable {S : Session} {st : RunState} {dk : Bytes}

theorem inReconnectLoop_resume (status : HandshakeStatus) :
    (status.resume S dk).inReconnectLoop = true ↔ status ≠ .panicked := by
  cases status with
  | panicked => simp [HandshakeStatus.resume, Phase.inReconnectLoop]
  | _ => simp [HandshakeStatus.resume, Phase.inReconnectLoop]

theorem next_ws (hp : st.phase = .handshake dk) (item : WsItem) :
    S.next st (.ws item) = some (handshakeRecv S st dk item).1 := by
  rw [Session.next, step_eq_react (by simp), hp]
  rfl

/-- The run goes on as `perform_handshake` stands. -/
theorem handshakeRecv_phase (hp : st.phase = .handshake dk) (item : WsItem) :
    (handshakeRecv S st dk item).1.phase = (receiveReply S dk st.writerAlive item).resume S dk := by
  cases item with
  | text t =>
      rw [handshakeRecv, receiveReply]
      cases previewOk 80 t with
      | false => rfl
      | true =>
          rw [Bool.not_true, if_neg Bool.false_ne_true, if_neg Bool.false_ne_true]
          cases (S.crates.json.fromStr t).bind RawMessage.deserialize with
          | none => exact hp
          | some raw =>
              dsimp only
              cases handshakeReply S.crates.prim dk raw with
              | ignored => exact hp
              | failed => rfl
              | panicked => rfl
              | derived key => cases st.writerAlive <;> rfl
  | error => rfl
  | ended => rfl
  | _ => exact hp

/-- The conversion panics exactly on a ciphertext of the wrong length. -/
theorem handshakeReply_panicked_iff (hkem : IsMlKem768 S.crates.prim) {raw : RawMessage Text} :
    handshakeReply S.crates.prim dk raw = .panicked ↔ raw.isHandshake = true ∧
      ∃ ct, HandshakeRole.ciphertextOf S.crates.prim raw = some ct ∧ ct.length ≠ CIPHERTEXT_LEN := by
  rw [handshakeReply_panicked]
  constructor
  · rintro ⟨ctB64, ct, hshake, hb64, hct, hnone⟩
    refine ⟨hshake, ct, ?_, ?_⟩
    · rw [HandshakeRole.ciphertextOf, hb64, Option.bind_some, hct]
    · intro hlen
      rw [← hkem dk ct, hnone] at hlen
      cases hlen
  · rintro ⟨hshake, ct, hct, hlen⟩
    obtain ⟨ctB64, hb64, hdec⟩ := Option.bind_eq_some_iff.1 hct
    refine ⟨ctB64, ct, hshake, hb64, hdec, ?_⟩
    rwa [← Option.not_isSome_iff_eq_none, hkem dk ct]

/-- `perform_handshake` panics on a text whose log line is cut inside a character, and on a ciphertext of
the wrong length. -/
theorem receiveReply_panicked_iff (hkem : IsMlKem768 S.crates.prim) (alive : Bool) (t : Text) :
    receiveReply S dk alive (.text t) = .panicked ↔ previewOk 80 t = false ∨
      ∃ ct, replyCiphertext S.crates t = some ct ∧ ct.length ≠ CIPHERTEXT_LEN := by
  rw [receiveReply, replyCiphertext]
  cases previewOk 80 t with
  | false => simp
  | true =>
      rw [Bool.not_true, if_neg Bool.false_ne_true]
      cases (S.crates.json.fromStr t).bind RawMessage.deserialize with
      | none => simp
      | some raw =>
          have hpanic : handshakeReply S.crates.prim dk raw = .panicked ↔ _ :=
            handshakeReply_panicked_iff hkem
          simp only [Option.bind_eq_bind, Option.bind_some, Option.ite_none_right_eq_some,
            Bool.true_eq_false, false_or, and_assoc, exists_and_left]
          rw [← hpanic]
          cases handshakeReply S.crates.prim dk raw with
          | ignored => simp
          | failed => simp
          | panicked => simp
          | derived key => cases alive <;> simp

/-- One item is handled exactly when it fits. -/
theorem handlesReply_iff (hkem : IsMlKem768 S.crates.prim) (e : Event) :
    HandlesReply S st e ↔ ReplyFits S st e := by
  constructor
  · intro h
    cases e with
    | ws item =>
        cases item with
        | text t =>
            intro hin
            cases hp : st.phase with
            | handshake dk =>
                have hreturns := (h dk (.text t) hp rfl).returns
                rw [Ne, receiveReply_panicked_iff hkem, not_or, Bool.not_eq_false] at hreturns
                refine ⟨hreturns.1, fun ct hct => ?_⟩
                by_contra hlen
                exact hreturns.2 ⟨ct, hct, hlen⟩
            | _ =>
                rw [hp] at hin
                cases hin
        | _ => exact trivial
    | _ => exact trivial
  · intro hfits dk item hp he
    subst he
    have hreturns : receiveReply S dk st.writerAlive item ≠ .panicked := by
      cases item with
      | text t =>
          obtain ⟨hcut, hlen⟩ := hfits (by rw [hp]; rfl)
          rw [Ne, receiveReply_panicked_iff hkem, hcut]
          rintro (hfalse | ⟨ct, hct, hne⟩)
          · cases hfalse
          · exact hne (hlen ct hct)
      | _ => simp [receiveReply]
    refine ⟨hreturns, ⟨_, next_ws hp item, handshakeRecv_phase hp item, ?_⟩, ?_⟩
    · rw [handshakeRecv_phase hp item, inReconnectLoop_resume]
      exact hreturns
    · -- no ciphertext of the wrong length fits
      rintro t ct rfl hct hne
      exact absurd ((hfits (by rw [hp]; rfl)).2 ct hct) hne

end Step

/-! ## Runs -/

/-- The runs in which `perform_handshake` handles every reply are those in which every text that it
receives fits. -/
theorem replies_handled_iff (S : Session) (hkem : IsMlKem768 S.crates.prim) (st : RunState)
    (es : List Event) :
    Guarded (stepRel S.next) (HandlesReply S) st es ↔ Guarded (stepRel S.next) (ReplyFits S) st es := by
  apply guarded_iff_guarded (I := fun _ => True)
  · intro st e m _ _
    trivial
  · intro st e m _ _
    exact handlesReply_iff hkem e
  · trivial

/-! ## A run of two handshakes, and a crash -/

namespace Sample

/-- The small KEM with ciphertexts of the length of ML-KEM 768. -/
def prim768 : Primitives Bytes Text :=
  { prim with
    mlkemEncapsulate := fun ek r =>
      some (pad CIPHERTEXT_LEN (ek ++ [UInt8.ofNat r]), pad 32 (ek ++ [UInt8.ofNat r]))
    mlkemDecapsulate := fun dk ct =>
      if ct.length = CIPHERTEXT_LEN then some (pad 32 (dk ++ ct.drop 1)) else none }

theorem isMlKem768_prim768 : IsMlKem768 prim768 := by
  intro dk ct
  simp [prim768]

def session768 (known : List Json) : Session where
  crates := { crates known with prim := prim768, hexEncode_eq := fun _ => rfl }
  derivedKey := prim768.argon2id "12345678".toList

/-- A reply to the offer. -/
def ciphertextReply (ctB64 : Text) : Json :=
  .ofFields [("type", .str "handshake".toList), ("mlkem_ciphertext", .str ctB64)]

/-- A client joins and replies to the offer. -/
def attempt (ctB64 : Text) : List Event :=
  [.ws (.text join.encode), .proceed, .proceed, .ws (.text (ciphertextReply ctB64).encode)]

/-- A ciphertext of the right length. -/
def ciphertext : Text := Lib.Base64.encode (pad CIPHERTEXT_LEN [1, 7])

/-- The session that knows the texts of the two runs below. -/
def repliesSession : Session :=
  session768 [join, ciphertextReply "!".toList, ciphertextReply ciphertext, ciphertextReply "AA==".toList]

end Sample

instance (S : Session) (st : RunState) (e : Event) : Decidable (ReplyFits S st e) :=
  match e with
  | .ws (.text t) => inferInstanceAs (Decidable (st.phase.inHandshake = true →
      previewOk 80 t = true ∧
        ∀ ct, replyCiphertext S.crates t = some ct → ct.length = CIPHERTEXT_LEN))
  | .ws (.ping _) | .ws .pong | .ws .close | .ws .other | .ws .error | .ws .ended | .connected _
  | .pty _ | .tick _ | .proceed | .writerExit => isTrue trivial

/-- A reply that is not base64 ends the first handshake, and the second one derives a key. -/
theorem second_reply_derives :
    Guarded (stepRel Sample.repliesSession.next) (HandlesReply Sample.repliesSession) Session.start
        ([.connected true, .proceed] ++ Sample.attempt "!".toList ++ Sample.attempt Sample.ciphertext) ∧
      ∃ st, Run (stepRel Sample.repliesSession.next) Session.start
        ([.connected true, .proceed] ++ Sample.attempt "!".toList ++ Sample.attempt Sample.ciphertext) st ∧
      st.phase.inBridge = true := by
  refine ⟨(replies_handled_iff _ Sample.isMlKem768_prim768 _ _).2 (guarded_of_checkAll ?_), ?_⟩
  · decide +kernel
  · exact exists_run_of_exec (by decide +kernel)

/-- A reply with a ciphertext of one byte crashes the agent. -/
theorem short_ciphertext_crashes :
    IsMlKem768 Sample.repliesSession.crates.prim ∧
      ¬ Guarded (stepRel Sample.repliesSession.next) (HandlesReply Sample.repliesSession) Session.start
        ([.connected true, .proceed] ++ Sample.attempt "AA==".toList) := by
  refine ⟨Sample.isMlKem768_prim768, fun h => ?_⟩
  -- the agent has sent its offer:
  obtain ⟨st, hrun, hp, halive⟩ :
      ∃ st, Run (stepRel Sample.repliesSession.next) Session.start
          ([.connected true, .proceed] ++ [.ws (.text Sample.join.encode), .proceed, .proceed]) st ∧
        st.phase = .handshake [0] ∧ st.writerAlive = true :=
    ⟨_, run_of_exec rfl, rfl, rfl⟩
  have hhandled : HandlesReply Sample.repliesSession st
      (.ws (.text (Sample.ciphertextReply "AA==".toList).encode)) := Guarded.step h hrun (next_ws hp _)
  have hreturns := (hhandled [0] _ hp rfl).returns
  -- the byte decodes, and `from_slice` panics on it:
  rw [halive] at hreturns
  exact hreturns (by decide +kernel)

end Ktty.Agent
