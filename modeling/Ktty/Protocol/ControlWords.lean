import Ktty.Agent.SessionSteps
import Ktty.Protocol.FrameSize
import Ktty.Relay.Socket
import Ktty.Wire.QuotedWords

/-!
# Data and control words

The agent recognises a control message by quoted words anywhere in the text, before it parses anything.
An envelope of the client is a flat object. Without its token its strings are a session id, which is hex,
a message type, and a payload, which is the base64 text of at least 40 bytes. None of them is a control
word, and neither is one of the keys, so data reaches the parser of the agent whatever is in it
(`data_is_never_control`).
-/

set_option autoImplicit false

namespace Ktty.Protocol.ControlWords

open Ktty.Wire Ktty.Crypto Ktty.Lib Ktty.Lib.Execution Ktty.Agent Ktty.Client
open Ktty.Protocol.FrameSize

/-! ## The words -/

/-- The types of the client's data. -/
def dataTypes : List Text :=
  ["pty".toList, "resize".toList, "sync_req".toList, "sys_kill".toList]

/-- The keys of an envelope without a token. -/
def envelopeKeys : List Text :=
  ["seq".toList, "session_id".toList, "type".toList, "payload".toList]

/-- A word that no key, type, session id or payload of an envelope is. -/
structure Foreign (word : Text) : Prop where
  ne_nil : word ≠ []
  key : word ∉ envelopeKeys
  type : word ∉ dataTypes
  hex : (word.all fun c => c ∈ Hex.digits) = false
  short : word.length < 56
  quote : '"' ∉ word
  colon : ':' ∉ word
  comma : ',' ∉ word
  brace : '\x7d' ∉ word

instance : DecidablePred Foreign := fun word =>
  decidable_of_iff (word ≠ [] ∧ word ∉ envelopeKeys ∧ word ∉ dataTypes ∧ (word.all fun c => c ∈ Hex.digits) = false ∧
      word.length < 56 ∧ '"' ∉ word ∧ ':' ∉ word ∧ ',' ∉ word ∧ '\x7d' ∉ word)
    ⟨fun ⟨h1, h2, h3, h4, h5, h6, h7, h8, h9⟩ => Foreign.mk h1 h2 h3 h4 h5 h6 h7 h8 h9,
      fun h => ⟨h.ne_nil, h.key, h.type, h.hex, h.short, h.quote, h.colon, h.comma, h.brace⟩⟩

/-! ## Envelopes -/

/-- The envelope of this header carries data. -/
structure Data (h : Header) : Prop where
  sessionId : ∀ sid ∈ h.sessionId, ∀ c ∈ sid, c ∈ Hex.digits
  type : h.type ∈ dataTypes

/-- The members of an envelope without a token. -/
def members (h : Header) (payload : Text) : List (Text × Json) :=
  [("seq".toList, .int h.seq), ("session_id".toList, h.sessionIdJson), ("type".toList, .str h.type),
    ("payload".toList, .str payload)]

section Envelope

variable {h : Header} {packed : Bytes}

theorem key_mem {payload : Text} {m : Text × Json} (hm : m ∈ members h payload) :
    m.1 ∈ envelopeKeys := by
  simp only [members, List.mem_cons, List.not_mem_nil, or_false] at hm
  rcases hm with rfl | rfl | rfl | rfl
  · exact List.mem_cons_self
  · exact List.mem_cons_of_mem _ List.mem_cons_self
  · exact List.mem_cons_of_mem _ (List.mem_cons_of_mem _ List.mem_cons_self)
  · exact List.mem_cons_of_mem _ (List.mem_cons_of_mem _ (List.mem_cons_of_mem _ List.mem_cons_self))

theorem plain_known : ∀ word ∈ envelopeKeys ++ dataTypes, ∀ c ∈ word, Plain c := by
  have hall : ((envelopeKeys ++ dataTypes).all fun word => word.all fun c => Plain c) = true := by decide
  intro word hword c hc
  exact of_decide_eq_true (List.all_eq_true.1 (List.all_eq_true.1 hall word hword) c hc)

theorem flat_members (hdata : Data h) :
    ∀ m ∈ members h (Base64.encode packed), (∀ c ∈ m.1, Plain c) ∧ m.2.Flat := by
  intro m hm
  refine ⟨plain_known m.1 (List.mem_append_left _ (key_mem hm)), ?_⟩
  simp only [members, List.mem_cons, List.not_mem_nil, or_false] at hm
  rcases hm with rfl | rfl | rfl | rfl
  · exact trivial
  · rw [Header.sessionIdJson]
    cases hsid : h.sessionId with
    | none => exact trivial
    | some sid => exact fun c hc => plain_hex (hdata.sessionId sid hsid c hc)
  · exact plain_known _ (List.mem_append_right _ hdata.type)
  · exact fun c hc => plain_base64 hc

/-- No key and no string of the envelope is a foreign word. -/
theorem foreign_members {word : Text} (hword : Foreign word) (hdata : Data h)
    (hlong : 40 ≤ packed.length) :
    ∀ m ∈ members h (Base64.encode packed), m.1 ≠ word ∧ m.2 ≠ .str word := by
  intro m hm
  refine ⟨fun heq => hword.key (heq ▸ key_mem hm), ?_⟩
  simp only [members, List.mem_cons, List.not_mem_nil, or_false] at hm
  rcases hm with rfl | rfl | rfl | rfl
  · intro heq
    cases heq
  · rw [Header.sessionIdJson]
    intro heq
    cases hsid : h.sessionId with
    | none =>
        rw [hsid] at heq
        cases heq
    | some sid =>
        rw [hsid] at heq
        obtain rfl := Json.str.inj heq
        have hhex : (sid.all fun c => c ∈ Hex.digits) = true :=
          List.all_eq_true.2 fun c hc => decide_eq_true (hdata.sessionId sid hsid c hc)
        rw [hword.hex] at hhex
        cases hhex
  · intro heq
    obtain rfl := Json.str.inj heq
    exact hword.type hdata.type
  · intro heq
    -- a word is shorter than the base64 text of nonce and tag:
    have hlength := Base64.length_encode packed
    have hshort := hword.short
    rw [Json.str.inj heq] at hlength
    omega

/-- The text of the members in any order contains no quoted foreign word. -/
theorem not_quoted {word : Text} (hword : Foreign word) (hdata : Data h) (hlong : 40 ≤ packed.length)
    {ms : List (Text × Json)} (hperm : ms.Perm (members h (Base64.encode packed))) :
    ¬ quoted word <:+: (Json.obj ms).encode := by
  intro hin
  have hflat : ∀ m ∈ ms, (∀ c ∈ m.1, Plain c) ∧ m.2.Flat :=
    fun m hm => flat_members hdata m (hperm.subset hm)
  obtain ⟨m, hm, heq⟩ := key_or_string_of_quoted hflat hword.ne_nil hword.quote hword.colon
    hword.comma hword.brace hin
  obtain ⟨hkey, hstr⟩ := foreign_members hword hdata hlong m (hperm.subset hm)
  rcases heq with heq | heq
  · exact hkey heq
  · exact hstr heq

end Envelope

/-! ## The relay and the agent -/

/-- The relay's JSON library reads the object that was sent and writes it without its token. -/
structure Rewrites (J : SerdeJson) (v : Json) : Prop where
  read : J.fromStr v.encode = some v
  write : J.valueToString (v.remove "auth") = (v.remove "auth").sorted.encode

/-- The relay forwards the members without the token, in the order of the envelope or sorted. -/
theorem forwardMsg_envelope {J : SerdeJson} {h : Header} {payload : Text}
    (hjson : Rewrites J (h.envelope payload)) :
    ∃ ms, Relay.forwardMsg J (.text (h.envelope payload).encode) = .text (Json.obj ms).encode ∧
      ms.Perm (members h payload) := by
  cases hauth : h.auth with
  | none =>
      have henvelope : h.envelope payload = .obj (members h payload) := by
        rw [Header.envelope, hauth]
        rfl
      rw [henvelope] at hjson ⊢
      refine ⟨members h payload, ?_, List.Perm.refl _⟩
      have hget : (Json.obj (members h payload)).get? "auth" = none := by
        apply Json.get?_of_notMem
        intro m hm hkey
        have hauthKey : "auth".toList ∉ envelopeKeys := by decide
        exact hauthKey (hkey ▸ key_mem hm)
      rw [Relay.forwardMsg, hjson.read]
      simp only [hget, Option.isSome_none, if_neg Bool.false_ne_true]
  | some token =>
      have henvelope : h.envelope payload =
          .obj (members h payload ++ [("auth".toList, .str token)]) := by
        rw [Header.envelope, hauth]
        rfl
      have hget : (h.envelope payload).get? "auth" = some (.str token) := by
        rw [henvelope]
        apply Json.get?_of_nodup
        · simp [members]
        · simp
      have hremove : (h.envelope payload).remove "auth" = .obj (members h payload) := by
        rw [henvelope]
        rfl
      obtain ⟨ms, hms, hperm⟩ := Json.exists_sorted (members h payload)
      have hwrite : J.valueToString ((h.envelope payload).remove "auth") = (Json.obj ms).encode := by
        rw [hjson.write, hremove, hms]
      refine ⟨ms, ?_, hperm⟩
      rw [Relay.forwardMsg, hjson.read]
      simp only [hget, Option.isSome_some, if_true, hwrite]

/-- The agent takes the text for no control message in any of its loops, and no loop is left. -/
structure Passed (t : Text) : Prop where
  disconnect : isDisconnectText t = false
  peerDisconnect : isPeerDisconnectText t = false
  join : isJoinText t = false
  init : ∀ (L : Crates) (st : RunState), initRecv L st (.text t) = (st, [])
  wait : ∀ st : RunState, waitRecv st (.text t) = (st, [])
  bridge : ∀ (L : Crates) (key : Bytes) (sid : Text) (st : RunState),
    (bridgeText L key sid st t).exit = none

theorem passed_of_perm {h : Header} {packed : Bytes} (hdata : Data h) (hlong : 40 ≤ packed.length)
    {ms : List (Text × Json)} (hperm : ms.Perm (members h (Base64.encode packed))) :
    Passed (Json.obj ms).encode := by
  have absent : ∀ word : Text, Foreign word →
      decide (quoted word <:+: (Json.obj ms).encode) = false := by
    intro word hword
    rw [decide_eq_false_iff_not]
    exact not_quoted hword hdata hlong hperm
  have hdisconnect : isDisconnectText (Json.obj ms).encode = false := by
    rw [isDisconnectText, Bool.and_eq_false_iff]
    exact Or.inr (absent "disconnect".toList (by decide))
  have hpeer : isPeerDisconnectText (Json.obj ms).encode = false := by
    rw [isPeerDisconnectText, Bool.and_eq_false_iff]
    exact Or.inr (absent "peer_disconnect".toList (by decide))
  have hjoin : isJoinText (Json.obj ms).encode = false := by
    rw [isJoinText, Bool.and_eq_false_iff]
    exact Or.inr (absent "join".toList (by decide))
  have hauth : containsStr (Json.obj ms).encode "\"auth\"" = false :=
    absent "auth".toList (by decide)
  have hpreview : ∀ limit, previewOk limit (Json.obj ms).encode = true :=
    previewOk_of_flat fun m hm => flat_members hdata m (hperm.subset hm)
  refine ⟨hdisconnect, hpeer, hjoin, ?_, ?_, ?_⟩
  · intro L st
    simp [initRecv, hpreview, interceptAuth, hauth, hjoin]
  · intro st
    simp [waitRecv, hpreview, hjoin]
  · intro L key sid st
    rw [bridgeText_exit, controlExit, hdisconnect, hpeer, hjoin]
    rfl

/-! ## Runs -/

/-- The frame is an envelope around the base64 text of a nonce and a tag at least, under the id of a
session or under none. -/
def Enveloped (f : Client.Frame) : Prop :=
  ∃ (h : Header) (packed : Bytes), f.json = h.envelope (Base64.encode packed) ∧ 40 ≤ packed.length ∧
    ∀ sid ∈ h.sessionId, ∀ c ∈ sid, c ∈ Hex.digits

/-- The session id is that of the key, and every frame with an encrypted payload is an envelope. -/
structure Inv (c : Connection) : Prop where
  paired : c.Paired
  enveloped : ∀ f ∈ c.sent, f.sealedUnder.isSome = true → Enveloped f

section Step

variable {D : Dart} {c m : Connection}

theorem hex_sessionId (hc : c.Paired) : ∀ sid ∈ c.sessionId, ∀ x ∈ sid, x ∈ Hex.digits := by
  intro sid hsid x hx
  rw [hc, Option.mem_def, Option.map_eq_some_iff] at hsid
  obtain ⟨k, -, rfl⟩ := hsid
  exact Hex.mem_encode hx

theorem enveloped_of_envelope (hb64 : StandardBase64 D.prim) (hc : c.Paired) {enc : Encryption}
    {f : Client.Frame} (h : c.EnvelopeOf D enc f) : Enveloped f := by
  obtain ⟨packed, hpacked, hjson⟩ := h.json
  have hlength := length_encrypt hpacked
  rw [NONCE_LEN, MAC_LEN] at hlength
  refine ⟨sentHeader c enc, packed, ?_, by omega, hex_sessionId hc⟩
  rw [hjson, withToken_envelopeFields, hb64]
  rfl

theorem inv_step (hb64 : StandardBase64 D.prim) {e : ServiceEvent} (hc : Inv c)
    (h : c.step D e = some m) : Inv m := by
  refine ⟨Connection.paired_step hc.paired h, ?_⟩
  -- frames that carry no encrypted payload do not matter:
  have plain : Connection.Plain c m → ∀ f ∈ m.sent, f.sealedUnder.isSome = true → Enveloped f := by
    intro hplain f hf hsealed
    rcases hplain f hf with hf | hnone
    · exact hc.enveloped f hf hsealed
    · rw [hnone] at hsealed
      cases hsealed
  cases Connection.step_change h with
  | keeps hsame => exact plain hsame.plain
  | clears hcleared => exact plain hcleared.plain
  | opens => exact plain (Connection.plain_of_sent rfl)
  | installs hstage => exact plain (Connection.plain_of_sent rfl)
  | encrypts henc hsame hsent =>
      intro f hf hsealed
      rcases hsent f hf with hf | hf
      · exact hc.enveloped f hf hsealed
      · exact enveloped_of_envelope hb64 hc.paired hf

theorem inv_new : Inv Connection.new where
  paired := rfl
  enveloped f hf := by cases hf

end Step

/-- What the relay makes of every frame with data sent so far passes the tests of the agent. -/
def DataPasses (J : SerdeJson) (c : Connection) : Prop :=
  ∀ f ∈ c.sent, f.sealedUnder.isSome = true →
    ∀ type ∈ dataTypes, f.json.get? "type" = some (.str type) → Rewrites J f.json →
      ∃ t, Relay.forwardMsg J (.text f.json.encode) = .text t ∧ Passed t

theorem dataPasses {J : SerdeJson} {c : Connection} (hc : Inv c) : DataPasses J c := by
  intro f hf hsealed type htype hget hjson
  obtain ⟨h, packed, henvelope, hlong, hsid⟩ := hc.enveloped f hf hsealed
  rw [henvelope] at hget hjson ⊢
  have htypes : h.type = type := by
    have hfound : (h.envelope (Base64.encode packed)).get? "type" = some (.str h.type) := by
      apply Json.get?_ofFields
      · cases h.auth <;> simp
      · simp
    rw [hfound] at hget
    exact Json.str.inj (Option.some.inj hget)
  obtain ⟨ms, hforward, hperm⟩ := forwardMsg_envelope hjson
  exact ⟨_, hforward, passed_of_perm ⟨hsid, htypes ▸ htype⟩ hlong hperm⟩

/-- Data is never taken for control, whatever the client encrypts and in whatever session. -/
theorem data_is_never_control (D : Dart) (J : SerdeJson) (es : List ServiceEvent)
    (hb64 : StandardBase64 D.prim) :
    Along (stepRel (Connection.step D)) (DataPasses J) Connection.new es := by
  apply along_of_invariant (I := Inv)
  · intro c e m hc h
    exact inv_step hb64 hc h
  · intro c hc
    exact dataPasses hc
  · exact inv_new

/-- A keystroke. -/
theorem keystroke_is_never_control :
    ∃ c, Run (stepRel (Connection.step Connection.Sample.dart)) Connection.new
        (Connection.Sample.session ++ [Connection.Sample.typed, .encrypted 0]) c ∧
      ∃ f ∈ c.sent, f.sealedUnder.isSome = true ∧
        ∃ t, Relay.forwardMsg (.knowing [f.json]) (.text f.json.encode) = .text t ∧ Passed t := by
  obtain ⟨c, hrun, f, hf, hsealed, htype⟩ : ∃ c,
      Run (stepRel (Connection.step Connection.Sample.dart)) Connection.new
        (Connection.Sample.session ++ [Connection.Sample.typed, .encrypted 0]) c ∧
      ∃ f ∈ c.sent, f.sealedUnder.isSome = true ∧
        (f.json.get? "type").bind Json.asStr = some "pty".toList :=
    exists_run_of_exec (by decide +kernel)
  have htype' : f.json.get? "type" = some (.str "pty".toList) := by
    obtain ⟨v, hv, hstr⟩ := Option.bind_eq_some_iff.1 htype
    cases v with
    | str s =>
        obtain rfl := Option.some.inj hstr
        exact hv
    | _ => cases hstr
  have hpasses := (data_is_never_control Connection.Sample.dart (.knowing [f.json])
    (Connection.Sample.session ++ [Connection.Sample.typed, .encrypted 0]) (fun _ => rfl)).last hrun
  exact ⟨c, hrun, f, hf, hsealed,
    hpasses f hf hsealed "pty".toList (by decide) htype' ⟨SerdeJson.knowing_fromStr _ _, rfl⟩⟩

end Ktty.Protocol.ControlWords
