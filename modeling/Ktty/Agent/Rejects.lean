import Ktty.Agent.SessionSteps
import Ktty.Agent.SampleCrates
import Ktty.Lib.Execution

/-!
# Frames that the bridge loop rejects

A text acts on the agent only if it passes: it parses as an envelope of the present session and its
payload decrypts. The bridge loop skips a text that does not pass unless it finds the words of a control
message in it, or takes it for no envelope and cuts its preview inside of a character
(`skips_iff`). An envelope that passes is skipped too when its body is of no use (`Inert`).
Over the sessions of a run (`Epochs`), no ciphertext made under the key of an earlier session passes.
-/

set_option autoImplicit false

namespace Ktty.Agent

open Ktty.Wire Ktty.Crypto Ktty.Lib.Execution

section Passing

variable (L : Crates) (key : Bytes) (sid : Text)

def parseEnvelope (t : Text) : Option EncryptedEnvelope :=
  (L.json.fromStr t).bind EncryptedEnvelope.deserialize

/-- An envelope of the present session with a payload that is valid base64 and decrypts. -/
def Passes (t : Text) : Prop :=
  ∃ env plain, parseEnvelope L t = some env ∧ openEnvelope L key sid env = some plain

/-- The plaintexts that `bridge_loop` and `handle_sync_req` drop. -/
inductive Inert : Text → Bytes → Prop
  | resize (plain : Bytes) : (L.json.fromSlice plain).bind ResizePayload.deserialize = none →
      Inert "resize".toList plain
  | syncReq (plain : Bytes) : (L.json.fromSlice plain).bind SyncReqPayload.deserialize = none →
      Inert "sync_req".toList plain
  | staleSyncReq (plain : Bytes) (syncData : SyncReqPayload) :
      (L.json.fromSlice plain).bind SyncReqPayload.deserialize = some syncData →
      syncData.sessionId ≠ sid → Inert "sync_req".toList plain
  | unknown (type : Text) (plain : Bytes) :
      type ∉ ["pty".toList, "resize".toList, "sys_kill".toList, "sync_req".toList] →
      Inert type plain

end Passing

/-- The text leaves no trace: the state stays, nothing is sent and no call is made on the PTY. -/
def Session.Skips (S : Session) (st : RunState) (t : Text) : Prop :=
  S.step st (.ws (.text t)) = some (st, [])

/-! ## One text -/

section Text

variable {S : Session} {L : Crates} {st : RunState} {key : Bytes} {sid t : Text}

theorem step_bridgeText (hp : st.phase = .bridge key sid) (t : Text) :
    S.step st (.ws (.text t)) = some (bridgeText S.crates key sid st t).resume := by
  change S.react st st.phase (.ws (.text t)) = _
  rw [hp]
  rfl

theorem afterBridge_ne (hp : st.phase = .bridge key sid) (exit : BridgeExit) :
    afterBridge st exit ≠ st := by
  intro h
  have hphase := congrArg RunState.phase h
  rw [hp] at hphase
  cases exit <;> cases hphase

/-- A text that is no control message and does not pass is skipped, but for the preview of a text that is
no envelope. -/
theorem bridgeText_of_not_passes (h : ¬ Passes L key sid t) (hexit : controlExit t = none) :
    (bridgeText L key sid st t).resume =
      (if (parseEnvelope L t).isSome || previewOk 80 t then st else st.goto .crashed, []) := by
  rw [bridgeText, hexit, ← parseEnvelope]
  cases henv : parseEnvelope L t with
  | none => rfl
  | some env =>
      have hopen : openEnvelope L key sid env = none := by
        cases hplain : openEnvelope L key sid env with
        | none => rfl
        | some plain => exact absurd ⟨env, plain, henv, hplain⟩ h
      simp only [bridgeEnvelope, hopen]
      rfl

/-- A text that does not pass is skipped exactly when it is taken for no control message and its preview
does no harm. -/
theorem skips_iff (hp : st.phase = .bridge key sid) (h : ¬ Passes S.crates key sid t) :
    S.Skips st t ↔
      controlExit t = none ∧
        ((parseEnvelope S.crates t).isSome = true ∨ previewOk 80 t = true) := by
  rw [Session.Skips, step_bridgeText hp, Option.some.injEq]
  cases hexit : controlExit t with
  | some exit =>
      refine iff_of_false ?_ fun h => by cases h.1
      intro hskip
      rw [bridgeText, hexit] at hskip
      exact afterBridge_ne hp exit (congrArg Prod.fst hskip)
  | none =>
      rw [bridgeText_of_not_passes h hexit, ← Bool.or_eq_true]
      split
      · next hok => simp [hok]
      · next hbad =>
          refine iff_of_false ?_ fun h => hbad h.2
          intro hskip
          -- the crash is seen in the phase
          have hphase := congrArg (fun r => r.1.phase) hskip
          rw [RunState.goto_phase, hp] at hphase
          cases hphase

theorem dispatch_syncReq (st : RunState) (plain : Bytes) :
    dispatch L key sid st "sync_req".toList plain = handleSyncReq L key sid st plain := by
  have hpty : "sync_req".toList ≠ "pty".toList := by decide
  have hresize : "sync_req".toList ≠ "resize".toList := by decide
  have hkill : "sync_req".toList ≠ "sys_kill".toList := by decide
  rw [dispatch, if_neg hpty, if_neg hresize, if_neg hkill, if_pos rfl]

theorem dispatch_inert {type : Text} {plain : Bytes} (h : Inert L sid type plain) :
    dispatch L key sid st type plain = (st, []) := by
  cases h with
  | resize _ hbody =>
      have hpty : "resize".toList ≠ "pty".toList := by decide
      rw [dispatch, if_neg hpty, if_pos rfl, hbody]
  | syncReq _ hbody =>
      rw [dispatch_syncReq, handleSyncReq, hbody]
  | staleSyncReq _ syncData hbody hsid =>
      rw [dispatch_syncReq, handleSyncReq, hbody]
      exact if_pos hsid
  | unknown _ _ htype =>
      simp only [List.mem_cons, List.not_mem_nil, or_false, not_or] at htype
      obtain ⟨hpty, hresize, hkill, hsync⟩ := htype
      rw [dispatch, if_neg hpty, if_neg hresize, if_neg hkill, if_neg hsync]

/-- A text that passes with an inert body is skipped. -/
theorem skips_of_inert (hp : st.phase = .bridge key sid) {env : EncryptedEnvelope} {plain : Bytes}
    (hexit : controlExit t = none) (henv : parseEnvelope S.crates t = some env)
    (hopen : openEnvelope S.crates key sid env = some plain)
    (h : Inert S.crates sid env.type plain) : S.Skips st t := by
  rw [Session.Skips, step_bridgeText hp, Option.some.injEq, bridgeText, hexit, ← parseEnvelope, henv]
  simp only [bridgeEnvelope, hopen, dispatch_inert h]
  rfl

end Text

/-! ## Sessions one after the other -/

def Phase.bridgeKey : Phase → Option Bytes
  | .bridge key _ => some key
  | _ => none

/-- The packed bytes in the payload of an envelope. -/
def packedOf (L : Crates) (t : Text) : Option Bytes :=
  (parseEnvelope L t).bind fun env => L.prim.b64Decode env.payload

/-- Packed bytes that someone has made under a key. -/
def MadeUnder (A : Aead) (key packed : Bytes) : Prop :=
  ∃ nonce plaintext ct, nonce.length = NONCE_LEN ∧ A.encrypt key nonce plaintext = some ct ∧
    packed = nonce ++ ct

theorem madeUnder_encrypt {A : Aead} {n : Nat} {key plaintext packed : Bytes}
    (h : encrypt A n key plaintext = some packed) : MadeUnder A key packed := by
  obtain ⟨ct, hct, rfl⟩ := Option.map_eq_some_iff.1 h
  exact ⟨A.nonce n, plaintext, ct, A.nonce_length n, hct, rfl⟩

/-- Made under a key, packed bytes decrypt under it. -/
theorem MadeUnder.decrypt {A : Aead} {key packed : Bytes} (h : MadeUnder A key packed) :
    ∃ plain, Crypto.decrypt A key packed = some plain := by
  obtain ⟨nonce, plaintext, ct, hn, hct, rfl⟩ := h
  have hlen := A.encrypt_length key nonce plaintext ct hct
  have hlong : ¬ (nonce ++ ct).length < NONCE_LEN + MAC_LEN := by
    rw [List.length_append, hn, hlen]
    omega
  refine ⟨plaintext, ?_⟩
  rw [Crypto.decrypt, if_neg hlong, List.take_left' hn, List.drop_left' hn]
  exact A.decrypt_encrypt key nonce plaintext ct hct

theorem opens_of_passes {L : Crates} {key : Bytes} {sid t : Text} (h : Passes L key sid t) :
    ∃ plain, (packedOf L t).bind (decrypt L.aead key) = some plain := by
  obtain ⟨env, plain, henv, hopen⟩ := h
  rw [openEnvelope] at hopen
  split at hopen
  · cases hopen
  · exact ⟨plain, by rw [packedOf, henv, Option.bind_some, hopen]⟩

/-- A run with the session keys of its earlier bridge loops. -/
structure Epochs where
  run : RunState
  past : List Bytes

namespace Epochs

variable (S : Session)

/-- The world before the agent connects. -/
def start : Epochs := { run := Session.start, past := [] }

def step (w : Epochs) (e : Event) : Option Epochs :=
  (S.step w.run e).map fun r =>
    { run := r.1
      past :=
        if r.1.phase.bridgeKey = w.run.phase.bridgeKey then w.past
        else w.run.phase.bridgeKey.toList ++ w.past }

/-- The present key is not one of an earlier session. -/
def Renewed (w : Epochs) : Prop := ∀ key, w.run.phase.bridgeKey = some key → key ∉ w.past

/-- What the key exchange and the cipher promise for a step. -/
structure Ideal (w : Epochs) (e : Event) : Prop where
  /-- A handshake derives a new key. -/
  fresh : ∀ m key, w.step S e = some m → m.run.phase.bridgeKey = some key →
    w.run.phase.bridgeKey ≠ some key → key ∉ w.past
  /-- What decrypts under a key was made under it. -/
  authentic : ∀ t key packed plain, e = .ws (.text t) → w.run.phase.bridgeKey = some key →
    packedOf S.crates t = some packed → decrypt S.crates.aead key packed = some plain →
    MadeUnder S.crates.aead key packed
  /-- Nothing that arrives was made under the present key and under an earlier one. -/
  separate : ∀ t key k packed, e = .ws (.text t) → w.run.phase.bridgeKey = some key →
    k ∈ w.past → packedOf S.crates t = some packed → MadeUnder S.crates.aead key packed →
    MadeUnder S.crates.aead k packed → k = key

/-- A text whose ciphertext was made under the key of an earlier session does not pass. -/
def StaleRejected (w : Epochs) (e : Event) : Prop :=
  ∀ t key sid packed, e = .ws (.text t) → w.run.phase = .bridge key sid →
    packedOf S.crates t = some packed → (∃ k ∈ w.past, MadeUnder S.crates.aead k packed) →
    ¬ Passes S.crates key sid t

variable {S} {w m : Epochs} {e : Event}

theorem renewed_start : start.Renewed := by
  intro key h
  cases h

theorem renewed_step (hw : w.Renewed) (h : w.step S e = some m) (hideal : w.Ideal S e) :
    m.Renewed := by
  intro key hkey
  have hfresh := hideal.fresh m key h hkey
  obtain ⟨r, hr, rfl⟩ := Option.map_eq_some_iff.1 h
  by_cases hsame : r.1.phase.bridgeKey = w.run.phase.bridgeKey
  · rw [if_pos hsame]
    exact hw key (hsame ▸ hkey)
  · rw [if_neg hsame, List.mem_append, not_or]
    have hne : w.run.phase.bridgeKey ≠ some key := fun heq => hsame (hkey.trans heq.symm)
    refine ⟨?_, hfresh hne⟩
    rw [Option.mem_toList]
    exact hne

theorem staleRejected_step (hw : w.Renewed) (hideal : w.Ideal S e) : w.StaleRejected S e := by
  rintro t key sid packed rfl hp hpacked ⟨k, hk, hmade⟩ hpasses
  have hkey : w.run.phase.bridgeKey = some key := by
    rw [hp]
    rfl
  obtain ⟨plain, hplain⟩ := opens_of_passes hpasses
  rw [hpacked, Option.bind_some] at hplain
  have hown := hideal.authentic t key packed plain rfl hkey hpacked hplain
  obtain rfl := hideal.separate t key k packed rfl hkey hk hpacked hown hmade
  exact hw k hkey hk

/-- From a state with a new key on, no ciphertext of an earlier session passes. -/
theorem staleRejected_run {es : List Event} (hw : w.Renewed)
    (hideal : Guarded (stepRel (step S)) (Ideal S) w es) :
    Guarded (stepRel (step S)) (StaleRejected S) w es := by
  apply guarded_of_guarded (I := Renewed) (C := Ideal S)
  · intro w e m hw h hideal
    exact renewed_step hw h hideal
  · intro w e m hw _ hideal
    exact staleRejected_step hw hideal
  · exact hw
  · exact hideal

/-- So none passes in any session of a run from its start. -/
theorem staleRejected_of_start {es : List Event}
    (hideal : Guarded (stepRel (step S)) (Ideal S) start es) :
    Guarded (stepRel (step S)) (StaleRejected S) start es :=
  staleRejected_run renewed_start hideal

end Epochs

/-- A text that does not pass is skipped exactly when it is taken for no control message and its preview
does no harm; an envelope with an inert body is skipped; and in no run does a ciphertext made under the
key of an earlier session pass. -/
theorem rejected_iff (S : Session) (w : Epochs) (es : List Event) (hw : w.Renewed)
    (hideal : Guarded (stepRel (Epochs.step S)) (Epochs.Ideal S) w es) :
    (∀ st key sid t, st.phase = .bridge key sid → ¬ Passes S.crates key sid t →
      (S.Skips st t ↔ controlExit t = none ∧
        ((parseEnvelope S.crates t).isSome = true ∨ previewOk 80 t = true))) ∧
    (∀ st key sid t env plain, st.phase = .bridge key sid → controlExit t = none →
      parseEnvelope S.crates t = some env → openEnvelope S.crates key sid env = some plain →
      Inert S.crates sid env.type plain → S.Skips st t) ∧
    Guarded (stepRel (Epochs.step S)) (Epochs.StaleRejected S) w es := by
  refine ⟨fun st key sid t hp h => skips_iff hp h,
    fun st key sid t env plain hp hexit henv hopen h => skips_of_inert hp hexit henv hopen h, ?_⟩
  exact Epochs.staleRejected_run hw hideal

/-! ## A replayed ciphertext and a cut preview -/

namespace Sample

/-- The session key of a later handshake. -/
def laterKey : Bytes := pad 32 [0, 8]

/-- A keystroke that was sealed under the first key, relabelled for the later session. -/
def relabelled : Option EncryptedEnvelope :=
  sealPacket (crates []) key (sessionId prim laterKey) none 1 1 "pty".toList [120]

def relabelledSession : Session := session (relabelled.toList.map EncryptedEnvelope.toJson)

/-- The bridge loop of the later session. -/
def later : Epochs where
  run := { Session.start with phase := .bridge laterKey (sessionId prim laterKey) }
  past := [key]

/-- An object that is no envelope. Its only key has 77 ASCII characters and a character of two bytes, of
which the second is byte 80 of the text. -/
def cutObject : Json := .obj [(List.replicate 77 'a' ++ ['é'], .int 1)]

def cutPreview : Text := cutObject.encode

def cutSession : Session := session [cutObject]

end Sample

namespace Sample

def relabelledText : Text := text relabelled

theorem relabelled_sealed :
    (packedOf relabelledSession.crates relabelledText).bind
      (decrypt relabelledSession.crates.aead laterKey) = none := by
  decide +kernel

theorem relabelled_not_passes :
    ¬ Passes relabelledSession.crates laterKey (sessionId prim laterKey) relabelledText := by
  intro hpasses
  obtain ⟨plain, hplain⟩ := opens_of_passes hpasses
  rw [relabelled_sealed] at hplain
  cases hplain

theorem relabelled_step :
    later.step relabelledSession (.ws (.text relabelledText)) = some later := by
  have hskips : relabelledSession.Skips later.run relabelledText :=
    (skips_iff rfl relabelled_not_passes).2 ⟨by decide +kernel, Or.inl (by decide +kernel)⟩
  rw [Session.Skips] at hskips
  rw [Epochs.step, hskips]
  rfl

/-- Nothing in the text decrypts under the later key, so the cipher keeps its promises. -/
theorem relabelled_ideal : later.Ideal relabelledSession (.ws (.text relabelledText)) := by
  have hnone : ∀ t packed, Event.ws (.text relabelledText) = .ws (.text t) →
      packedOf relabelledSession.crates t = some packed →
      decrypt relabelledSession.crates.aead laterKey packed = none := by
    intro t packed ht hpacked
    obtain rfl := WsItem.text.inj (Event.ws.inj ht)
    have hsealed := relabelled_sealed
    rwa [hpacked] at hsealed
  constructor
  · intro m key h hkey hne
    rw [relabelled_step] at h
    obtain rfl := Option.some.inj h
    exact absurd hkey hne
  · intro t key packed plain ht hkey hpacked hplain
    obtain rfl := Option.some.inj hkey
    rw [hnone t packed ht hpacked] at hplain
    cases hplain
  · intro t key k packed ht hkey _ hpacked hown _
    obtain rfl := Option.some.inj hkey
    obtain ⟨plain, hplain⟩ := hown.decrypt
    rw [hnone t packed ht hpacked] at hplain
    cases hplain

end Sample

/-- The replayed keystroke of the earlier session is skipped in the later one. -/
theorem rejected_relabelled :
    Sample.relabelledSession.Skips Sample.later.run Sample.relabelledText := by
  have hguard : Guarded (stepRel (Epochs.step Sample.relabelledSession))
      (Epochs.Ideal Sample.relabelledSession) Sample.later [.ws (.text Sample.relabelledText)] :=
    fun m _ => ⟨Sample.relabelled_ideal, trivial⟩
  have hrenewed : Sample.later.Renewed := by
    intro key hkey
    obtain rfl := Option.some.inj hkey
    decide
  obtain ⟨hskips, -, hstale⟩ := rejected_iff Sample.relabelledSession Sample.later
    [.ws (.text Sample.relabelledText)] hrenewed hguard
  -- the ciphertext is the one that was made under the first key
  obtain ⟨packed, hpacked⟩ : ∃ packed,
      packedOf Sample.relabelledSession.crates Sample.relabelledText = some packed :=
    Option.isSome_iff_exists.1 (by decide +kernel)
  have hsame : packedOf Sample.relabelledSession.crates Sample.relabelledText =
      encrypt Sample.aead 1 Sample.key [120] := by decide +kernel
  have hmade : MadeUnder Sample.aead Sample.key packed :=
    madeUnder_encrypt (hsame.symm.trans hpacked)
  have hnot := (hstale Sample.later Sample.relabelled_step).1 Sample.relabelledText Sample.laterKey
    (sessionId Sample.prim Sample.laterKey) packed rfl rfl hpacked
    ⟨Sample.key, List.mem_cons_self, hmade⟩
  exact (hskips _ _ _ _ rfl hnot).2 ⟨by decide +kernel, Or.inl (by decide +kernel)⟩

/-- A text that is no control message and no envelope crashes the agent when byte 80 lies inside of a
character. -/
theorem cut_preview_crashes :
    controlExit Sample.cutPreview = none ∧
      ¬ Passes Sample.cutSession.crates Sample.laterKey (sessionId Sample.prim Sample.laterKey)
        Sample.cutPreview ∧
      ∃ st, Sample.cutSession.step Sample.later.run (.ws (.text Sample.cutPreview)) = some (st, []) ∧
        st.phase = .crashed := by
  have hexit : controlExit Sample.cutPreview = none := by decide +kernel
  have hcut : previewOk 80 Sample.cutPreview = false := by decide +kernel
  have hparse : parseEnvelope Sample.cutSession.crates Sample.cutPreview = none := by decide +kernel
  have hnot : ¬ Passes Sample.cutSession.crates Sample.laterKey
      (sessionId Sample.prim Sample.laterKey) Sample.cutPreview := by
    rintro ⟨env, plain, henv, -⟩
    rw [hparse] at henv
    cases henv
  refine ⟨hexit, hnot, Sample.later.run.goto .crashed, ?_, rfl⟩
  rw [step_bridgeText rfl, bridgeText_of_not_passes hnot hexit, hparse, hcut]
  rfl

end Ktty.Agent
