import Ktty.Client.CurrentChannel
import Ktty.Crypto.Bindings

/-!
# The service on a platform

The steps of `WebSocketService` with the crypto of a platform in place of the primitives. A key that the
service has under way comes from Argon2id and a secret from an encapsulation (`Drawn`), so on both
platforms the service has exactly the runs of the model (`runs_on_platforms`), and a session decrypts as
the model does.
-/

set_option autoImplicit false

namespace Ktty.Client.Connection

open Ktty.Wire Ktty.Crypto Ktty.Lib.Execution

/-! ## The calls of the platform -/

section Platform

variable (N : NativeCrypto) (D : Dart) (c : Connection)

/-- Behind the derivation of key and room id, each of which may throw. -/
def joinOn (i : Nat) (pin : Text) : Connection :=
  match N.deriveKey pin with
  | some derivedKey =>
      -- `hashPin` derives the key once more
      match (N.deriveKey pin).bind N.roomId with
      | some roomId =>
          (c.sendJson [("action", .str "join".toList), ("room_id", .str roomId)] none).firstWhere i
            (.offer derivedKey)
      | none => c.goto i .thrown
  | none => c.goto i .thrown

def encapsulateOn (i : Nat) (derivedKey : Bytes) (mlkemPubKeyB64 : Text) (offerFrom : ChannelId) :
    Connection :=
  match (D.prim.base64Decode mlkemPubKeyB64).bind fun ek => N.mlkemEncapsulate ek c.rng with
  | some (ct, ss) =>
      ({ c with rng := c.rng + 1 }.sendJson [("type", .str "handshake".toList),
        ("mlkem_ciphertext", .str (D.prim.b64Encode ct))] none).firstWhere i
          (.hmac derivedKey { bytes := ss, offerFrom := offerFrom, ciphertextTo := c.channel })
  | none => c.goto i .thrown

def verifyHmacOn (i : Nat) : Connection :=
  match c.pendingHmacVerification with
  | none => c.goto i .thrown
  | some p =>
      let c := { c with pendingHmacVerification := none }
      match (D.prim.base64Decode p.hmacB64).bind (N.verifyHmac p.derivedKey p.key.secret.bytes) with
      | some valid => c.goto i (.verifying p.key valid)
      | none => c.goto i .thrown

def finishEncryptionOn (e : Encryption) : Connection :=
  match N.encrypt e.key.secret.bytes c.rng e.payload with
  | some packed =>
      { c with rng := c.rng + 1 }.sendJson
        (envelopeFields e.seq c.sessionId e.type (D.prim.b64Encode packed)) (some e.key)
  | none => { c with rng := c.rng + 1 }

def proceedOn (i : Nat) : Option Connection :=
  match c.stage i with
  | some (.derivingKey pin) => some (c.joinOn N i pin)
  | some (.offered derivedKey mlkemPubKeyB64 ch) =>
      some (c.encapsulateOn N D i derivedKey mlkemPubKeyB64 ch)
  | some .heardHmac => some (c.verifyHmacOn N D i)
  -- the other stages call no crypto
  | _ => c.proceed D i

/-- A step of the service on the platform. -/
def stepOn : ServiceEvent → Option Connection
  | .proceed i => c.proceedOn N D i
  | .encrypted i =>
      (c.encryptions[i]?).map fun e =>
        { c with encryptions := c.encryptions.eraseIdx i }.finishEncryptionOn N D e
  | e => c.step D e

/-- `decryptPayload` with a session. -/
def decryptPayloadOn (k : SessionKey) (base64Payload : Text) : Option Bytes :=
  (D.prim.base64Decode base64Payload).bind (N.decrypt k.secret.bytes)

end Platform

/-! ## Where keys and secrets come from -/

section Drawn

variable (P : Primitives Bytes Text)

/-- A key of Argon2id. -/
def Derived (key : Bytes) : Prop := ∃ pin, key = P.argon2id pin

/-- A secret of an encapsulation. -/
def Shared (secret : Bytes) : Prop := ∃ ek n ct, P.mlkemEncapsulate ek n = some (ct, secret)

/-- What a task holds at its `await`. -/
def StageDrawn : Stage → Prop
  | .offered derivedKey _ _ => Derived P derivedKey
  | .verifying k _ => Shared P k.secret.bytes
  | _ => True

/-- What a closure holds. -/
def WantedDrawn : Wanted → Prop
  | .offer derivedKey => Derived P derivedKey
  | .hmac derivedKey secret => Derived P derivedKey ∧ Shared P secret.bytes

/-- Every key and every secret of the service. -/
structure Drawn (c : Connection) : Prop where
  tasks : ∀ t ∈ c.tasks, StageDrawn P t.stage
  listeners : ∀ l ∈ c.listeners, WantedDrawn P l.wanted
  pending : ∀ p ∈ c.pendingHmacVerification, Derived P p.derivedKey ∧ Shared P p.key.secret.bytes
  crypto : ∀ k ∈ c.crypto, Shared P k.secret.bytes
  encryptions : ∀ e ∈ c.encryptions, Shared P e.key.secret.bytes

end Drawn

section Steps

variable {D : Dart} {P : Primitives Bytes Text} {c m : Connection}

theorem drawn_new : Drawn P new := by
  constructor
  · rintro t ⟨⟩
  · rintro l ⟨⟩
  · rintro p ⟨⟩
  · rintro k ⟨⟩
  · rintro e ⟨⟩

/-- The other fields do not count. -/
theorem Drawn.kept (h : Drawn P c) (htasks : m.tasks = c.tasks) (hlisteners : m.listeners = c.listeners)
    (hpending : m.pendingHmacVerification = c.pendingHmacVerification) (hcrypto : m.crypto = c.crypto)
    (hencryptions : m.encryptions = c.encryptions) : Drawn P m := by
  constructor
  · rw [htasks]
    exact h.tasks
  · rw [hlisteners]
    exact h.listeners
  · rw [hpending]
    exact h.pending
  · rw [hcrypto]
    exact h.crypto
  · rw [hencryptions]
    exact h.encryptions

/-- The session is given up. -/
theorem Drawn.cleared (h : Drawn P c) (htasks : m.tasks = c.tasks) (hlisteners : m.listeners = c.listeners)
    (hpending : m.pendingHmacVerification = c.pendingHmacVerification) (hcrypto : m.crypto = none)
    (hencryptions : m.encryptions = c.encryptions) : Drawn P m := by
  have hkept : Drawn P { m with crypto := c.crypto } :=
    h.kept htasks hlisteners hpending rfl hencryptions
  refine ⟨hkept.tasks, hkept.listeners, hkept.pending, ?_, hkept.encryptions⟩
  rw [hcrypto]
  rintro k ⟨⟩

theorem drawn_goto {i : Nat} {stage : Stage} (h : Drawn P c) (hstage : StageDrawn P stage) :
    Drawn P (c.goto i stage) := by
  refine ⟨?_, h.listeners, h.pending, h.crypto, h.encryptions⟩
  intro t ht
  rw [goto] at ht
  rcases List.mem_iff_getElem?.1 ht with ⟨j, hj⟩
  rw [List.getElem?_modify] at hj
  obtain ⟨u, hu, rfl⟩ := Option.map_eq_some_iff.1 hj
  split_ifs
  · exact hstage
  · exact h.tasks u (List.mem_of_getElem? hu)

theorem drawn_spawn {caller : Caller} {stage : Stage} (h : Drawn P c) (hstage : StageDrawn P stage) :
    Drawn P (c.spawn caller stage) := by
  refine ⟨?_, h.listeners, h.pending, h.crypto, h.encryptions⟩
  intro t ht
  rcases List.mem_append.1 ht with ht | ht
  · exact h.tasks t ht
  · rw [List.mem_singleton.1 ht]
    exact hstage

theorem drawn_wake {i : Nat} {stage : Stage} (h : Drawn P c) (hstage : StageDrawn P stage) :
    Drawn P (c.wake i stage) := by
  rw [wake]
  split_ifs
  · exact drawn_goto h hstage
  · exact h

theorem drawn_sendJson (h : Drawn P c) (fields : List (String × Json)) (sealedUnder : Option SessionKey) :
    Drawn P (c.sendJson fields sealedUnder) := by
  rw [sendJson, send]
  split
  · exact h.kept rfl rfl rfl rfl rfl
  · exact h

theorem drawn_firstWhere {i : Nat} {wanted : Wanted} (h : Drawn P c) (hwanted : WantedDrawn P wanted) :
    Drawn P (c.firstWhere i wanted) := by
  have hgoto : Drawn P (c.goto i .waiting) := drawn_goto h trivial
  refine ⟨hgoto.tasks, ?_, hgoto.pending, hgoto.crypto, hgoto.encryptions⟩
  intro l hl
  rcases List.mem_append.1 hl with hl | hl
  · exact h.listeners l hl
  · rw [List.mem_singleton.1 hl]
    exact hwanted

theorem drawn_broadcast (h : Drawn P c) (item : StreamItem) : Drawn P (c.broadcast item) := by
  refine ⟨h.tasks, ?_, h.pending, h.crypto, h.encryptions⟩
  intro l hl
  obtain ⟨l', hl', rfl⟩ := List.mem_map.1 hl
  exact h.listeners l' hl'

theorem drawn_scheduleReconnect (h : Drawn P c) : Drawn P c.scheduleReconnect := by
  rw [scheduleReconnect]
  split_ifs
  · exact h
  · exact h.kept rfl rfl rfl rfl rfl

theorem drawn_catchReconnect (h : Drawn P c) : Drawn P c.catchReconnect := by
  rw [catchReconnect]
  split_ifs
  · exact drawn_scheduleReconnect h
  · exact h

theorem drawn_handleDisconnect (h : Drawn P c) : Drawn P c.handleDisconnect := by
  have hcleared : Drawn P
      { c with channel := none, crypto := none, sessionId := none, relayAuthToken := none } :=
    h.cleared rfl rfl rfl rfl rfl
  exact drawn_catchReconnect hcleared

theorem drawn_disconnect (h : Drawn P c) : Drawn P c.disconnect := by
  have hquiet : Drawn P { c with autoReconnectEnabled := false }.cancelReconnect :=
    h.kept rfl rfl rfl rfl rfl
  exact (drawn_sendJson hquiet [("type", .str "disconnect".toList)] none).cleared rfl rfl rfl rfl rfl

/-- A closure takes what it holds to its task, or to `_pendingHmacVerification`. -/
theorem drawn_hear {i : Nat} (h : Drawn P c) (hm : c.hear D i = some m) : Drawn P m := by
  rw [hear] at hm
  split at hm
  · rename_i l hl
    have hwanted := h.listeners l (List.mem_of_getElem? hl)
    have herased : Drawn P { c with listeners := c.listeners.eraseIdx i } :=
      ⟨h.tasks, fun l' hl' => h.listeners l' (List.mem_of_mem_eraseIdx hl'), h.pending, h.crypto,
        h.encryptions⟩
    have hpending : ∀ p : PendingHmac, Derived P p.derivedKey ∧ Shared P p.key.secret.bytes →
        Drawn P { c with listeners := c.listeners.eraseIdx i, pendingHmacVerification := some p } := by
      intro p hp
      refine ⟨herased.tasks, herased.listeners, ?_, herased.crypto, herased.encryptions⟩
      rintro p' ⟨⟩
      exact hp
    have hpass : ∀ rest, Drawn P { c with listeners := c.listeners.set i { l with inbox := rest } } := by
      intro rest
      refine ⟨h.tasks, ?_, h.pending, h.crypto, h.encryptions⟩
      intro l' hl'
      rcases List.mem_or_eq_of_mem_set hl' with hl' | rfl
      · exact h.listeners l' hl'
      · exact hwanted
    split at hm
    · cases hm
      rw [hearMessage]
      split
      · rename_i derivedKey hoffer
        rw [hoffer] at hwanted
        split
        · exact drawn_wake herased hwanted
        · exact hpass _
      · rename_i derivedKey secret hhmac
        rw [hhmac] at hwanted
        split
        · exact drawn_wake (hpending _ hwanted) trivial
        · exact hpass _
    · cases hm
      exact drawn_wake herased trivial
    · cases hm
      exact drawn_wake herased trivial
    · cases hm
  · cases hm

theorem drawn_join (h : Drawn D.prim c) (i : Nat) (pin : Text) : Drawn D.prim (c.join D i pin) :=
  drawn_firstWhere (drawn_sendJson h _ none) ⟨pin, rfl⟩

theorem drawn_encapsulate (h : Drawn D.prim c) {derivedKey : Bytes} (hderived : Derived D.prim derivedKey)
    (i : Nat) (pk : Text) (ch : ChannelId) : Drawn D.prim (c.encapsulate D i derivedKey pk ch) := by
  rw [encapsulate]
  split
  · rename_i ct ss hencap
    obtain ⟨ek, -, hss⟩ := Option.bind_eq_some_iff.1 hencap
    have hrng : Drawn D.prim { c with rng := c.rng + 1 } := h.kept rfl rfl rfl rfl rfl
    exact drawn_firstWhere (drawn_sendJson hrng _ none) ⟨hderived, ek, c.rng, ct, hss⟩
  · exact drawn_goto h trivial

theorem drawn_verifyHmac (h : Drawn P c) (i : Nat) : Drawn P (c.verifyHmac D i) := by
  rw [verifyHmac]
  split
  · exact drawn_goto h trivial
  · rename_i p hp
    have htaken : Drawn P { c with pendingHmacVerification := none } :=
      ⟨h.tasks, h.listeners, by rintro q ⟨⟩, h.crypto, h.encryptions⟩
    split
    · exact drawn_goto htaken (h.pending p hp).2
    · exact drawn_goto htaken trivial

theorem drawn_install (h : Drawn P c) {k : SessionKey} (hk : Shared P k.secret.bytes) (i : Nat)
    (valid : Bool) : Drawn P (c.install i k valid) := by
  rw [install]
  split_ifs
  · have hestablished : Drawn P (c.goto i .established) := drawn_goto h trivial
    refine ⟨hestablished.tasks, hestablished.listeners, hestablished.pending, ?_,
      hestablished.encryptions⟩
    rintro k' ⟨⟩
    exact hk
  · exact drawn_goto h trivial

theorem drawn_proceed {i : Nat} (h : Drawn D.prim c) (hm : c.proceed D i = some m) : Drawn D.prim m := by
  rw [proceed] at hm
  split at hm
  · rename_i t ht
    have hstage := h.tasks t (List.mem_of_getElem? ht)
    split at hm
    · cases hm
      exact drawn_join h i _
    · rename_i derivedKey pk ch hoffered
      rw [hoffered] at hstage
      cases hm
      exact drawn_encapsulate h hstage i pk ch
    · cases hm
      exact drawn_verifyHmac h i
    · rename_i k valid hverifying
      rw [hverifying] at hstage
      cases hm
      exact drawn_install h hstage i valid
    · -- the callback of the timer goes on
      split_ifs at hm
      have hfinished : Drawn D.prim (c.goto i .finished) := drawn_goto h trivial
      cases hs : t.stage with
      | connected =>
          rw [hs] at hm
          cases hm
          rw [rejoin]
          split
          · exact drawn_goto h trivial
          · exact drawn_catchReconnect hfinished
      | established =>
          rw [hs] at hm
          cases hm
          exact hfinished.kept rfl rfl rfl rfl rfl
      | thrown =>
          rw [hs] at hm
          cases hm
          exact drawn_catchReconnect hfinished
      | _ =>
          rw [hs] at hm
          cases hm
  · cases hm

theorem drawn_sendEncrypted (h : Drawn P c) (seq : Int) (type : Text) (payload : Bytes) :
    Drawn P (c.sendEncrypted seq type payload) := by
  rw [sendEncrypted]
  split
  · rename_i k _ hcrypto _
    refine ⟨h.tasks, h.listeners, h.pending, h.crypto, ?_⟩
    intro e he
    rcases List.mem_append.1 he with he | he
    · exact h.encryptions e he
    · rw [List.mem_singleton.1 he]
      exact h.crypto k hcrypto
  · exact h

theorem drawn_step {e : ServiceEvent} (h : Drawn D.prim c) (hm : c.step D e = some m) :
    Drawn D.prim m := by
  cases e with
  | connect url =>
      cases hm
      have hcleared : Drawn D.prim (c.connect url) := h.cleared rfl rfl rfl rfl rfl
      exact drawn_spawn hcleared trivial
  | connectWebSocket i ok =>
      rw [step] at hm
      split_ifs at hm
      · cases hm
        have hconnected : Drawn D.prim (c.goto i .connected) := drawn_goto h trivial
        exact hconnected.kept rfl rfl rfl rfl rfl
      · cases hm
        exact drawn_goto h trivial
  | data ch str =>
      rw [step] at hm
      split_ifs at hm
      cases hm
      rw [onData]
      split
      · exact h.kept rfl rfl rfl rfl rfl
      · split_ifs
        · exact h
        · exact drawn_broadcast h _
  | error ch =>
      rw [step] at hm
      split_ifs at hm
      cases hm
      rw [onError]
      split_ifs
      · exact h
      · exact drawn_handleDisconnect (drawn_broadcast h _)
  | done ch =>
      rw [step] at hm
      split_ifs at hm
      cases hm
      have hended : Drawn D.prim { c with listening := c.listening.filter (· ≠ ch) } :=
        h.kept rfl rfl rfl rfl rfl
      exact drawn_handleDisconnect hended
  | hear i => exact drawn_hear h hm
  | timeout i =>
      rw [step] at hm
      split_ifs at hm
      cases hm
      exact drawn_goto h trivial
  | performHandshake pin =>
      cases hm
      have hpin : Drawn D.prim { c with lastPin := some pin } := h.kept rfl rfl rfl rfl rfl
      exact drawn_spawn hpin trivial
  | proceed i => exact drawn_proceed h hm
  | fire =>
      rw [step] at hm
      split_ifs at hm
      cases hm
      have hfired : Drawn D.prim { c with reconnectTimer := none } := h.kept rfl rfl rfl rfl rfl
      rw [fire]
      split
      · rename_i url hurl
        have hcleared : Drawn D.prim ({ c with reconnectTimer := none }.connect url) :=
          hfired.cleared rfl rfl rfl rfl rfl
        exact drawn_spawn hcleared trivial
      · exact drawn_catchReconnect hfired
  | attemptReconnect =>
      cases hm
      rw [attemptReconnect]
      split_ifs
      · exact h
      · have henabled : Drawn D.prim { c with autoReconnectEnabled := true, reconnectAttempts := 0 } :=
          h.kept rfl rfl rfl rfl rfl
        exact drawn_scheduleReconnect henabled
  | suppressReconnect =>
      cases hm
      exact h.kept rfl rfl rfl rfl rfl
  | backgroundClose =>
      cases hm
      exact h.cleared rfl rfl rfl rfl rfl
  | disconnect =>
      cases hm
      exact drawn_disconnect h
  | dispose =>
      cases hm
      rw [dispose]
      dsimp only
      split_ifs
      · exact drawn_disconnect h
      · exact (drawn_broadcast (drawn_disconnect h) .done).kept rfl rfl rfl rfl rfl
  | sendEncrypted seq type payload =>
      cases hm
      exact drawn_sendEncrypted h seq type payload
  | sendSyncRequest lastSeq =>
      cases hm
      rw [sendSyncRequest]
      split
      · exact drawn_sendEncrypted h _ _ _
      · exact h
  | encrypted i =>
      rw [step] at hm
      obtain ⟨enc, -, rfl⟩ := Option.map_eq_some_iff.1 hm
      have herased : Drawn D.prim { c with encryptions := c.encryptions.eraseIdx i } :=
        ⟨h.tasks, h.listeners, h.pending, h.crypto,
          fun e he => h.encryptions e (List.mem_of_mem_eraseIdx he)⟩
      have hrng : Drawn D.prim
          { c with encryptions := c.encryptions.eraseIdx i, rng := c.rng + 1 } :=
        herased.kept rfl rfl rfl rfl rfl
      rw [finishEncryption]
      split
      · exact drawn_sendJson hrng _ _
      · exact hrng

end Steps

/-! ## Agreement -/

section Agreement

variable {N : NativeCrypto} {D : Dart} {c m : Connection}

theorem joinOn_eq (h : Implements D.prim D.aead N) (i : Nat) (pin : Text) :
    c.joinOn N i pin = c.join D i pin := by
  have hroom : (N.deriveKey pin).bind N.roomId = some (Crypto.roomId D.prim (D.prim.argon2id pin)) := by
    rw [h.deriveKey, Option.bind_some, h.roomId]
  rw [joinOn, hroom, h.deriveKey]
  rfl

theorem encapsulateOn_eq (h : Implements D.prim D.aead N) (i : Nat) (derivedKey : Bytes) (pk : Text)
    (ch : ChannelId) : c.encapsulateOn N D i derivedKey pk ch = c.encapsulate D i derivedKey pk ch := by
  have hencap : ((D.prim.base64Decode pk).bind fun ek => N.mlkemEncapsulate ek c.rng) =
      (D.prim.base64Decode pk).bind fun ek => D.prim.mlkemEncapsulate ek c.rng := by
    simp only [h.mlkemEncapsulate]
  unfold encapsulateOn encapsulate
  generalize ((D.prim.base64Decode pk).bind fun ek => N.mlkemEncapsulate ek c.rng) = result at hencap
  subst hencap
  cases (D.prim.base64Decode pk).bind fun ek => D.prim.mlkemEncapsulate ek c.rng with
  | none => rfl
  | some r => rfl

theorem verifyHmacOn_eq (h : Implements D.prim D.aead N) (hc : Drawn D.prim c) (i : Nat) :
    c.verifyHmacOn N D i = c.verifyHmac D i := by
  rw [verifyHmacOn, verifyHmac]
  cases hp : c.pendingHmacVerification with
  | none => rfl
  | some p =>
      obtain ⟨⟨pin, hpin⟩, -⟩ := hc.pending p hp
      dsimp only
      cases D.prim.base64Decode p.hmacB64 with
      | none => rfl
      | some hmacBytes =>
          rw [Option.bind_some, hpin, h.verifyHmac]
          rfl

theorem finishEncryptionOn_eq (h : Implements D.prim D.aead N) {enc : Encryption}
    (henc : Shared D.prim enc.key.secret.bytes) :
    c.finishEncryptionOn N D enc = c.finishEncryption D enc := by
  obtain ⟨ek, n, ct, hss⟩ := henc
  have hencrypt := h.encrypt ek n ct _ hss c.rng enc.payload
  unfold finishEncryptionOn finishEncryption
  generalize N.encrypt enc.key.secret.bytes c.rng enc.payload = result at hencrypt
  subst hencrypt
  cases Crypto.encrypt D.aead c.rng enc.key.secret.bytes enc.payload with
  | none => rfl
  | some packed => rfl

theorem proceedOn_eq (h : Implements D.prim D.aead N) (hc : Drawn D.prim c) (i : Nat) :
    c.proceedOn N D i = c.proceed D i := by
  rw [proceedOn]
  split
  · rename_i pin hstage
    obtain ⟨t, ht, hpin⟩ := Option.map_eq_some_iff.1 hstage
    rw [proceed, ht, joinOn_eq h]
    simp only [hpin]
  · rename_i derivedKey pk ch hstage
    obtain ⟨t, ht, hoffered⟩ := Option.map_eq_some_iff.1 hstage
    rw [proceed, ht, encapsulateOn_eq h]
    simp only [hoffered]
  · rename_i hstage
    obtain ⟨t, ht, hheard⟩ := Option.map_eq_some_iff.1 hstage
    rw [proceed, ht, verifyHmacOn_eq h hc]
    simp only [hheard]
  · rfl

theorem stepOn_eq (h : Implements D.prim D.aead N) (hc : Drawn D.prim c) (e : ServiceEvent) :
    c.stepOn N D e = c.step D e := by
  cases e with
  | proceed i => exact proceedOn_eq h hc i
  | encrypted i =>
      rw [stepOn, step]
      cases henc : c.encryptions[i]? with
      | none => rfl
      | some enc =>
          exact congrArg some (finishEncryptionOn_eq h (hc.encryptions enc (List.mem_of_getElem? henc)))
  | _ => rfl

/-- A session decrypts as the model does. -/
theorem decryptPayloadOn_eq (h : Implements D.prim D.aead N) {k : SessionKey}
    (hk : Shared D.prim k.secret.bytes) (sid : Option Text) (base64Payload : Text) :
    decryptPayloadOn N D k base64Payload =
      decryptPayload D { crypto := some k.secret.bytes, sessionId := sid } base64Payload := by
  obtain ⟨ek, n, ct, hss⟩ := hk
  rw [decryptPayloadOn, decryptPayload, Option.bind_some]
  congr 1
  funext packed
  exact h.decrypt ek n ct _ hss packed

theorem drawn_of_run {es : List ServiceEvent} (h : Run (stepRel (step D)) new es c) : Drawn D.prim c := by
  have halong : Along (stepRel (step D)) (Drawn D.prim) new es := by
    apply along_of_invariant (I := Drawn D.prim)
    · intro c e m hc hm
      exact drawn_step hc hm
    · intro c hc
      exact hc
    · exact drawn_new
  exact halong.last h

/-- In the browser and natively the service has the runs of the model, and its sessions decrypt alike. -/
theorem runs_on_platforms {C : Algorithms} (hprim : Provides C D.prim)
    (haead : D.aead = C.cipher.joined C.nonces)
    (hN : N = NativeCryptoWeb.impl C ∨ N = NativeCryptoFfi.impl C) (es : List ServiceEvent)
    (c : Connection) :
    (Run (stepRel (stepOn N D)) new es c ↔ Run (stepRel (step D)) new es c) ∧
      (Run (stepRel (stepOn N D)) new es c → ∀ k ∈ c.crypto, ∀ sid base64Payload,
        decryptPayloadOn N D k base64Payload =
          decryptPayload D { crypto := some k.secret.bytes, sessionId := sid } base64Payload) := by
  have himplements : Implements D.prim D.aead N := by
    rw [haead]
    rcases hN with rfl | rfl
    · exact web_implements hprim
    · exact ffi_implements hprim
  have hruns : Run (stepRel (stepOn N D)) new es c ↔ Run (stepRel (step D)) new es c := by
    apply run_iff_of_agree (I := Drawn D.prim)
    · intro c e m hc hm
      exact drawn_step hc hm
    · intro c e m hc
      rw [stepRel, stepRel, stepOn_eq himplements hc e]
    · exact drawn_new
  refine ⟨hruns, fun hrun k hk sid base64Payload => ?_⟩
  exact decryptPayloadOn_eq himplements ((drawn_of_run (hruns.1 hrun)).crypto k hk) sid base64Payload

/-- The offer of an agent with a key of ML-KEM 768. -/
def Sample.offer768 : Json :=
  .ofFields [("type", .str "handshake".toList),
    ("mlkem_pub_key", .str (Crypto.Sample.prim.b64Encode (List.replicate 1184 1)))]

/-- Its HMAC of the secret that is encapsulated first. -/
def Sample.hmac768 : Json :=
  .ofFields [("type", .str "handshake".toList),
    ("hmac", .str (Crypto.Sample.prim.b64Encode (Crypto.Sample.prim.hmacSha256
      (Crypto.Sample.prim.argon2id Sample.pin) (List.replicate 32 0))))]

def Sample.dart768 : Dart where
  prim := Crypto.Sample.prim
  aead := Crypto.Sample.algorithms.cipher.joined Crypto.Sample.algorithms.nonces
  jsonDecode := (SerdeJson.knowing [Sample.offer768, Sample.hmac768]).fromStr
  utf8Decode _ := none

def Sample.run768 : List ServiceEvent :=
  Sample.connected 0 ++ [.performHandshake Sample.pin, .proceed 1, .data 0 Sample.offer768.encode, .hear 0,
    .proceed 1, .data 0 Sample.hmac768.encode, .hear 0, .proceed 1, .proceed 1]

/-- A handshake through the three pointers. -/
theorem runs_on_platforms_ffi : ∃ c,
    Run (stepRel (stepOn (NativeCryptoFfi.impl Crypto.Sample.algorithms) Sample.dart768)) new Sample.run768 c ∧
      c.crypto.isSome = true := by
  obtain ⟨c, hrun, hcrypto⟩ : ∃ c, Run (stepRel (step Sample.dart768)) new Sample.run768 c ∧
      c.crypto.isSome = true := exists_run_of_exec (by decide +kernel)
  have hruns := runs_on_platforms (D := Sample.dart768) (C := Crypto.Sample.algorithms)
    ⟨fun _ => rfl, fun _ => rfl, fun _ _ => rfl, fun _ _ => rfl⟩ rfl (Or.inr rfl) Sample.run768 c
  exact ⟨c, hruns.1.2 hrun, hcrypto⟩

end Agreement

end Ktty.Client.Connection
