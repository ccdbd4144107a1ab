import Ktty.Lib.Base64
import Ktty.Lib.Hex
import Ktty.Wire.Messages

/-!
# The size of an envelope

An envelope on the wire is the base64 text of its payload and the JSON around it. `Header` is what the
JSON says beside the payload, and `overhead` counts its bytes. A frame of at most `maxBytes` bytes has
room for exactly `capacity maxBytes` payload bytes (`byteLen_envelope_le_iff`).
-/

set_option autoImplicit false

namespace Ktty.Wire

open Ktty.Lib

/-! ## Bytes of a text -/

@[simp] theorem byteLen_nil : byteLen [] = 0 := rfl

@[simp] theorem byteLen_cons (c : Char) (t : Text) : byteLen (c :: t) = c.utf8Size + byteLen t := by
  simp [byteLen]

@[simp] theorem byteLen_append (s t : Text) : byteLen (s ++ t) = byteLen s + byteLen t := by
  simp [byteLen]

theorem byteLen_of_ascii {t : Text} (h : ∀ c ∈ t, c.utf8Size = 1) : byteLen t = t.length := by
  induction t with
  | nil => rfl
  | cons c cs ih =>
      have hcs := ih fun d hd => h d (List.mem_cons_of_mem c hd)
      rw [byteLen_cons, h c List.mem_cons_self, hcs, List.length_cons, Nat.add_comm]

/-- A character that stands for itself in a JSON string and takes one byte. -/
def Plain (c : Char) : Prop := Json.escapeChar c = [c] ∧ c.utf8Size = 1

instance : DecidablePred Plain := fun _ => inferInstanceAs (Decidable (_ ∧ _))

theorem escape_plain {t : Text} (h : ∀ c ∈ t, Plain c) : t.flatMap Json.escapeChar = t := by
  induction t with
  | nil => rfl
  | cons c cs ih =>
      rw [List.flatMap_cons, (h c List.mem_cons_self).1,
        ih fun d hd => h d (List.mem_cons_of_mem c hd)]
      rfl

theorem byteLen_quote (t : Text) :
    byteLen (Json.quote t) = byteLen (t.flatMap Json.escapeChar) + 2 := by
  have hquote : ('"').utf8Size = 1 := by decide
  simp only [Json.quote, byteLen_cons, byteLen_append, byteLen_nil, hquote]
  omega

/-- A plain text grows by its two quotes. -/
theorem byteLen_quote_plain {t : Text} (h : ∀ c ∈ t, Plain c) :
    byteLen (Json.quote t) = t.length + 2 := by
  rw [byteLen_quote, escape_plain h, byteLen_of_ascii fun c hc => (h c hc).2]

theorem plain_hex {c : Char} (h : c ∈ Hex.digits) : Plain c := by
  have key : Hex.digits.all (fun d => Plain d) = true := by decide
  exact of_decide_eq_true (List.all_eq_true.1 key c h)

theorem plain_base64 {bs : Bytes} {c : Char} (h : c ∈ Base64.encode bs) : Plain c := by
  rcases Base64.mem_encode h with rfl | ⟨n, hn, rfl⟩
  · decide
  · have key : ∀ m : Fin 64, Plain (Base64.digit m) := by decide +kernel
    exact key ⟨n, hn⟩

theorem ascii_encodeInt (i : Int) : ∀ c ∈ Json.encodeInt i, c.utf8Size = 1 := by
  have hdigits : ∀ c ∈ Nat.toDigits 10 i.natAbs, c.utf8Size = 1 := by
    intro c hc
    have hdigit := Nat.isDigit_of_mem_toDigits (by omega) (by omega) hc
    rw [Char.isDigit, Bool.and_eq_true, decide_eq_true_iff, decide_eq_true_iff] at hdigit
    rw [Char.utf8Size_eq_one_iff]
    exact UInt32.le_trans hdigit.2 (by decide)
  rw [Json.encodeInt]
  split
  · intro c hc
    rcases List.mem_cons.1 hc with rfl | hc
    · decide
    · exact hdigits c hc
  · exact hdigits

/-- A decimal integer is plain. -/
theorem byteLen_encodeInt (i : Int) : byteLen (Json.encodeInt i) = (Json.encodeInt i).length :=
  byteLen_of_ascii (ascii_encodeInt i)

/-- The bytes of a member with its colon and the comma or brace behind it. -/
def memberBytes (m : Text × Json) : Nat := byteLen (Json.quote m.1) + byteLen m.2.encode + 2

theorem byteLen_encodeMembers (m : Text × Json) (ms : List (Text × Json)) :
    byteLen (Json.encodeMembers (m :: ms)) + 1 = ((m :: ms).map memberBytes).sum := by
  have hcolon : (':').utf8Size = 1 := by decide
  have hcomma : (',').utf8Size = 1 := by decide
  induction ms generalizing m with
  | nil =>
      simp only [Json.encodeMembers, byteLen_append, byteLen_cons, hcolon, List.map_cons, List.map_nil,
        List.sum_cons, List.sum_nil, memberBytes]
      omega
  | cons n ms ih =>
      have hrest := ih n
      rw [List.map_cons, List.sum_cons, ← hrest]
      simp only [Json.encodeMembers, byteLen_append, byteLen_cons, hcolon, hcomma, memberBytes]
      omega

theorem byteLen_obj (m : Text × Json) (ms : List (Text × Json)) :
    byteLen (Json.obj (m :: ms)).encode = ((m :: ms).map memberBytes).sum + 1 := by
  have hopen : ('\x7b').utf8Size = 1 := by decide
  have hclose : ('\x7d').utf8Size = 1 := by decide
  have hmembers := byteLen_encodeMembers m ms
  rw [Json.encode, byteLen_cons, byteLen_append, byteLen_cons, byteLen_nil, hopen, hclose]
  omega

/-! ## The header -/

/-- The members of an envelope beside its payload. -/
structure Header where
  seq : Int
  sessionId : Option Text
  type : Text
  auth : Option Text

namespace Header

variable (h : Header)

/-- The session id as JSON. -/
def sessionIdJson : Json := h.sessionId.elim .null .str

/-- The envelope as JSON. -/
def envelope (payload : Text) : Json :=
  .ofFields ([("seq", .int h.seq), ("session_id", h.sessionIdJson), ("type", .str h.type),
    ("payload", .str payload)] ++ h.auth.toList.map fun token => ("auth", .str token))

/-- The bytes of an envelope around the text of its payload. -/
def overhead : Nat :=
  43 + (Json.encodeInt h.seq).length + byteLen h.sessionIdJson.encode + byteLen (Json.quote h.type) +
    h.auth.elim 0 fun token => 8 + byteLen (Json.quote token)

/-- The payload bytes for which a frame of `maxBytes` bytes has room. -/
def capacity (maxBytes : Nat) : Nat := 3 * ((maxBytes - h.overhead) / 4)

theorem byteLen_envelope (payload : Bytes) :
    byteLen (h.envelope (Base64.encode payload)).encode =
      h.overhead + (Base64.encode payload).length := by
  have hpayload : byteLen (Json.quote (Base64.encode payload)) =
      (Base64.encode payload).length + 2 := byteLen_quote_plain fun c hc => plain_base64 hc
  have hkeys : byteLen (Json.quote "seq".toList) = 5 ∧ byteLen (Json.quote "session_id".toList) = 12 ∧
      byteLen (Json.quote "type".toList) = 6 ∧ byteLen (Json.quote "payload".toList) = 9 ∧
      byteLen (Json.quote "auth".toList) = 6 := by decide
  obtain ⟨h1, h2, h3, h4, h5⟩ := hkeys
  rw [envelope, overhead, Json.ofFields, List.map_append]
  cases h.auth with
  | none =>
      simp only [List.map_cons, List.map_nil, List.cons_append, List.nil_append, Option.toList_none,
        Option.elim_none]
      rw [byteLen_obj]
      simp only [memberBytes, List.map_cons, List.map_nil, List.sum_cons, List.sum_nil, Json.encode,
        byteLen_encodeInt, h1, h2, h3, h4, hpayload]
      omega
  | some token =>
      simp only [List.map_cons, List.map_nil, List.cons_append, List.nil_append, Option.toList_some,
        Option.elim_some]
      rw [byteLen_obj]
      simp only [memberBytes, List.map_cons, List.map_nil, List.sum_cons, List.sum_nil, Json.encode,
        byteLen_encodeInt, h1, h2, h3, h4, h5, hpayload]
      omega

theorem byteLen_envelope_le_iff {payload : Bytes} (hpos : 0 < payload.length) (maxBytes : Nat) :
    byteLen (h.envelope (Base64.encode payload)).encode ≤ maxBytes ↔
      payload.length ≤ h.capacity maxBytes := by
  rw [byteLen_envelope]
  exact Base64.length_encode_add_le_iff hpos _ _

end Header

end Ktty.Wire
