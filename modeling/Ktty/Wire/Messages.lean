import Ktty.Wire.Json

/-!
# The messages of the wire protocol

The structs of `messages.rs` with their readers and their JSON. A struct that is serialized directly
keeps its field order; a message that passes through a `serde_json::Value` (`boot`, the offer and the
HMAC, which get their `auth` field inserted) comes out with its keys sorted.

`RawMessage` is generic in the type `τ` of its contents: the handshake code only compares its control
fields and passes the contents to the crypto functions, so the same code runs on texts and on symbolic
terms.
-/

set_option autoImplicit false

namespace Ktty.Wire

/-! ## Control texts -/

/-- The agent's test for a join notification, the same in the init, wait and bridge loops. -/
def isJoinText (t : Text) : Bool := containsStr t "\"action\"" && containsStr t "\"join\""

/-- The bridge loop's test for the client's own disconnect message. -/
def isDisconnectText (t : Text) : Bool := containsStr t "\"type\"" && containsStr t "\"disconnect\""

/-- The bridge loop's test for the relay's disconnect notice. -/
def isPeerDisconnectText (t : Text) : Bool :=
  containsStr t "\"type\"" && containsStr t "\"peer_disconnect\""

/-! ## Encrypted envelope -/

/-- A required field is the only member of its name, and so the one that a map reader finds. -/
theorem get?_of_required {α : Type} {ms : List (Text × Json)} {key : String} {read : Json → Option α}
    {a : α} (h : required ms key read = some a) :
    ∃ v, (Json.obj ms).get? key = some v ∧ read v = some a := by
  rw [required] at h
  split at h
  · rename_i v hfield
    refine ⟨v, ?_, h⟩
    rw [structField] at hfield
    split at hfield
    · cases hfield
    · rename_i m hm
      obtain rfl := Option.some.inj (Option.some.inj hfield)
      rw [Json.get?, hm]
      rfl
    · cases hfield
  · cases h

theorem get?_of_required_str {ms : List (Text × Json)} {key : String} {s : Text}
    (h : required ms key Json.asStr = some s) : (Json.obj ms).get? key = some (.str s) := by
  obtain ⟨v, hv, hread⟩ := get?_of_required h
  cases v with
  | str t =>
      obtain rfl := Option.some.inj hread
      exact hv
  | _ => cases hread

theorem get?_of_required_u64 {ms : List (Text × Json)} {key : String} {n : Nat}
    (h : required ms key Json.asU64 = some n) : (Json.obj ms).get? key = some (.int n) := by
  obtain ⟨v, hv, hread⟩ := get?_of_required h
  cases v with
  | int i =>
      rw [Json.asU64] at hread
      split_ifs at hread with hrange
      obtain rfl := Option.some.inj hread
      rw [hv, Int.toNat_of_nonneg hrange.1]
  | _ => cases hread

structure EncryptedEnvelope where
  seq : Nat
  sessionId : Text
  type : Text
  payload : Text
  auth : Option Text
  deriving DecidableEq

namespace EncryptedEnvelope

def new (seq : Nat) (sessionId msgType payloadB64 : Text) : EncryptedEnvelope :=
  { seq := seq, sessionId := sessionId, type := msgType, payload := payloadB64, auth := none }

def withAuth (env : EncryptedEnvelope) (token : Option Text) : EncryptedEnvelope :=
  { env with auth := token }

/-- `#[derive(Deserialize)]`. -/
def deserialize (v : Json) : Option EncryptedEnvelope := do
  let ms ← structMembers ["seq", "session_id", "type", "payload", "auth"] v
  return {
    seq := ← required ms "seq" Json.asU64
    sessionId := ← required ms "session_id" Json.asStr
    type := ← required ms "type" Json.asStr
    payload := ← required ms "payload" Json.asStr
    auth := ← optional ms "auth" Json.asStr }

/-- What a reader of JSON maps finds in an object that the derived reader accepts. -/
theorem get?_of_deserialize {ms : List (Text × Json)} {env : EncryptedEnvelope}
    (h : deserialize (.obj ms) = some env) :
    (Json.obj ms).get? "seq" = some (.int env.seq) ∧
      (Json.obj ms).get? "session_id" = some (.str env.sessionId) ∧
      (Json.obj ms).get? "type" = some (.str env.type) ∧
      (Json.obj ms).get? "payload" = some (.str env.payload) := by
  simp only [deserialize, structMembers, Option.pure_def, Option.bind_eq_bind, Option.bind_some,
    Option.bind_eq_some_iff, Option.some.injEq] at h
  obtain ⟨seq, hseq, sid, hsid, type, htype, payload, hpayload, auth, -, rfl⟩ := h
  exact ⟨get?_of_required_u64 hseq, get?_of_required_str hsid, get?_of_required_str htype,
    get?_of_required_str hpayload⟩

/-- `#[derive(Serialize)]`; `auth` is skipped when it is `None`. -/
def toJson (env : EncryptedEnvelope) : Json :=
  .ofFields ([("seq", .int env.seq), ("session_id", .str env.sessionId), ("type", .str env.type),
    ("payload", .str env.payload)] ++ env.auth.toList.map fun a => ("auth", .str a))

/-- The members of the JSON of an envelope. -/
def members (env : EncryptedEnvelope) : List (Text × Json) :=
  [("seq".toList, .int env.seq), ("session_id".toList, .str env.sessionId),
    ("type".toList, .str env.type), ("payload".toList, .str env.payload)] ++
      env.auth.toList.map fun a => ("auth".toList, .str a)

theorem toJson_eq_obj (env : EncryptedEnvelope) : env.toJson = .obj env.members := by
  rw [toJson, members, Json.ofFields, List.map_append, List.map_map]
  rfl

theorem keys_of_auth_none {env : EncryptedEnvelope} (h : env.auth = none) :
    env.members.map (·.1) =
      ["seq".toList, "session_id".toList, "type".toList, "payload".toList] := by
  rw [members, h]
  rfl

theorem key_ne_auth {env : EncryptedEnvelope} {ms : List (Text × Json)} (h : env.auth = none)
    (hms : ms.Perm env.members) : ∀ m ∈ ms, m.1 ≠ "auth".toList := by
  intro m hm heq
  have hkey : "auth".toList ∈ env.members.map (·.1) :=
    List.mem_map.2 ⟨m, hms.mem_iff.1 hm, heq⟩
  rw [keys_of_auth_none h] at hkey
  exact absurd hkey (by decide)

theorem nodup_members (env : EncryptedEnvelope) : (env.members.map (·.1)).Nodup := by
  rw [members]
  cases env.auth with
  | none =>
      show ["seq".toList, "session_id".toList, "type".toList, "payload".toList].Nodup
      decide
  | some a =>
      show ["seq".toList, "session_id".toList, "type".toList, "payload".toList, "auth".toList].Nodup
      decide

/-- Removing the token is the same as not adding it. -/
theorem toJson_remove (env : EncryptedEnvelope) :
    env.toJson.remove "auth" = (env.withAuth none).toJson := by
  rw [toJson_eq_obj, toJson_eq_obj, Json.remove]
  cases hauth : env.auth with
  | none => simp [members, withAuth, hauth]
  | some a => simp [members, withAuth, hauth]

/-- An envelope is read back from its JSON, in whatever order its members stand. -/
theorem deserialize_of_perm {env : EncryptedEnvelope} {ms : List (Text × Json)}
    (hms : ms.Perm env.members) (hseq : env.seq < 2 ^ 64) :
    deserialize (.obj ms) = some env := by
  have hnd : (ms.map (·.1)).Nodup := (hms.map _).nodup_iff.2 env.nodup_members
  -- each required field is read from its member
  have hread : ∀ {α : Type} (key : String) (v : Json) (read : Json → Option α),
      (key.toList, v) ∈ env.members → required ms key read = read v :=
    fun key v read hm => required_of_nodup read hnd (hms.mem_iff.2 hm)
  have hrange : (0 : Int) ≤ env.seq ∧ (env.seq : Int) < 2 ^ 64 := by omega
  have hseqRead : Json.asU64 (.int env.seq) = some env.seq := by
    rw [Json.asU64, if_pos hrange, Int.toNat_natCast]
  have hauth : optional ms "auth" Json.asStr = some env.auth := by
    cases h : env.auth with
    | some a =>
        have hm : ("auth".toList, Json.str a) ∈ ms := hms.mem_iff.2 (by simp [members, h])
        rw [optional, structField, filter_key_of_nodup hnd hm]
        rfl
    | none =>
        exact optional_of_notMem Json.asStr (key_ne_auth h hms)
  simp only [deserialize, structMembers, Option.pure_def, Option.bind_eq_bind, Option.bind_some,
    hread "seq" (.int env.seq) Json.asU64 (by simp [members]), hseqRead,
    hread "session_id" (.str env.sessionId) Json.asStr (by simp [members]),
    hread "type" (.str env.type) Json.asStr (by simp [members]),
    hread "payload" (.str env.payload) Json.asStr (by simp [members]), Json.asStr, hauth]

end EncryptedEnvelope

/-! ## Decrypted payloads -/

structure ResizePayload where
  cols : Nat
  rows : Nat

/-- A `u16` field. -/
def asU16 (v : Json) : Option Nat :=
  match v with
  | .int i => if 0 ≤ i ∧ i < 2 ^ 16 then some i.toNat else none
  | _ => none

def ResizePayload.deserialize (v : Json) : Option ResizePayload := do
  let ms ← structMembers ["cols", "rows"] v
  return { cols := ← required ms "cols" asU16, rows := ← required ms "rows" asU16 }

theorem ResizePayload.deserialize_obj {ms : List (Text × Json)} {cols rows : Nat}
    (hcols : required ms "cols" asU16 = some cols) (hrows : required ms "rows" asU16 = some rows) :
    deserialize (.obj ms) = some { cols := cols, rows := rows } := by
  simp only [deserialize, structMembers, Option.pure_def, Option.bind_eq_bind, Option.bind_some,
    hcols, hrows]

structure SyncReqPayload where
  lastSeq : Nat
  sessionId : Text

def SyncReqPayload.deserialize (v : Json) : Option SyncReqPayload := do
  let ms ← structMembers ["last_seq", "session_id"] v
  return { lastSeq := ← required ms "last_seq" Json.asU64
           sessionId := ← required ms "session_id" Json.asStr }

theorem SyncReqPayload.deserialize_obj {ms : List (Text × Json)} {lastSeq : Nat} {sid : Text}
    (hlast : required ms "last_seq" Json.asU64 = some lastSeq)
    (hsid : required ms "session_id" Json.asStr = some sid) :
    deserialize (.obj ms) = some { lastSeq := lastSeq, sessionId := sid } := by
  simp only [deserialize, structMembers, Option.pure_def, Option.bind_eq_bind, Option.bind_some,
    hlast, hsid]

/-- The body of a `sync_warn`, `json!({"dropped_start": start, "dropped_end": end})`: the keys of a
`Value` are sorted. -/
def syncWarnJson (start stop : Nat) : Json :=
  .ofFields [("dropped_end", .int stop), ("dropped_start", .int start)]

/-! ## Generic incoming message -/

structure RawMessage (τ : Type) where
  action : Option Text := none
  type : Option Text := none
  roomId : Option τ := none
  mlkemPubKey : Option τ := none
  mlkemCiphertext : Option τ := none
  seq : Option Nat := none
  sessionId : Option τ := none
  payload : Option τ := none
  hmac : Option τ := none

namespace RawMessage

variable {τ : Type}

def isHandshake (raw : RawMessage τ) : Bool := raw.type == some "handshake".toList

/-- `#[derive(Deserialize)]`: every field is optional. -/
def deserialize (v : Json) : Option (RawMessage Text) := do
  let ms ← structMembers ["action", "type", "room_id", "mlkem_pub_key", "mlkem_ciphertext", "seq",
    "session_id", "payload", "hmac"] v
  return {
    action := ← optional ms "action" Json.asStr
    type := ← optional ms "type" Json.asStr
    roomId := ← optional ms "room_id" Json.asStr
    mlkemPubKey := ← optional ms "mlkem_pub_key" Json.asStr
    mlkemCiphertext := ← optional ms "mlkem_ciphertext" Json.asStr
    seq := ← optional ms "seq" Json.asU64
    sessionId := ← optional ms "session_id" Json.asStr
    payload := ← optional ms "payload" Json.asStr
    hmac := ← optional ms "hmac" Json.asStr }

/-- `JoinMessage::new`. -/
def join (roomId : τ) : RawMessage τ := { action := some "join".toList, roomId := some roomId }

/-- `HandshakeOffer::new`. -/
def offer (pubKeyB64 : τ) : RawMessage τ :=
  { type := some "handshake".toList, mlkemPubKey := some pubKeyB64 }

/-- The client's reply, `HandshakeReply`. -/
def reply (ciphertextB64 : τ) : RawMessage τ :=
  { type := some "handshake".toList, mlkemCiphertext := some ciphertextB64 }

/-- The agent's HMAC message. -/
def hmacMsg (hmacB64 : τ) : RawMessage τ :=
  { type := some "handshake".toList, hmac := some hmacB64 }

end RawMessage

end Ktty.Wire
