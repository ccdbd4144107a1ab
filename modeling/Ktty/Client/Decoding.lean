import Ktty.Lib.Utf8
import Ktty.Agent.SampleCrates
import Ktty.Client.TerminalService

/-!
# Decoding the terminal's output

`_handleMessage` decodes the bytes of each `pty` frame on their own, with malformed bytes replaced and a
byte order mark in front discarded. A character whose bytes come in two frames is replaced by at least
two replacement characters, and a character U+FEFF at the start of a frame is lost. So the text that
is written for a stream of output is the decoding of the stream exactly when each frame holds whole
characters and no frame behind the first starts with a byte order mark (`text_iff_whole`).
-/

set_option autoImplicit false

namespace Ktty.Client

open Ktty.Wire Ktty.Lib

/-! ## `utf8.decode` -/

/-- U+FEFF. -/
def unicodeBomCharacterRune : Char := Char.ofNat 0xFEFF

def bomBytes : Bytes := [0xEF, 0xBB, 0xBF]

def discardBom : Text → Text
  | [] => []
  | c :: t => if c = unicodeBomCharacterRune then t else c :: t

/-- `utf8.decode(bytes, allowMalformed: true)`. -/
def utf8DecodeMalformed (bytes : Bytes) : Text := discardBom (Utf8.decode bytes)

/-- What the handler of a `pty` frame writes to the terminal. -/
def TerminalEffect.written : TerminalEffect → Text
  | .output _ _ filtered => if filtered = [] then [] else utf8DecodeMalformed filtered
  | _ => []

/-- The text that is written for packets of output. -/
def textOf (packets : List Bytes) : Text := packets.flatMap utf8DecodeMalformed

/-- Every packet holds whole characters, and behind the first one with any bytes none starts with a byte
order mark. -/
structure Whole (packets : List Bytes) : Prop where
  encoded : ∀ p ∈ packets, ∃ u, p = Utf8.encode u
  unmarked : ∀ p ∈ (packets.filter (· ≠ [])).tail, ¬ bomBytes <+: p

section Discard

variable {t u : Text} {us : List Text}

@[simp] theorem discardBom_nil : discardBom [] = [] := rfl

/-- The other characters stay. -/
theorem countP_discardBom (t : Text) :
    (discardBom t).countP (· ≠ unicodeBomCharacterRune) =
      t.countP (· ≠ unicodeBomCharacterRune) := by
  cases t with
  | nil => rfl
  | cons c t =>
      rw [discardBom]
      split <;> simp [*]

theorem discardBom_of_ne (h : u.head? ≠ some unicodeBomCharacterRune) : discardBom u = u := by
  cases u with
  | nil => rfl
  | cons c u =>
      rw [discardBom, if_neg]
      rintro rfl
      exact h rfl

theorem length_discardBom (h : u.head? = some unicodeBomCharacterRune) :
    (discardBom u).length + 1 = u.length := by
  cases u with
  | nil => cases h
  | cons c u =>
      obtain rfl := Option.some.inj h
      simp [discardBom]

theorem length_discardBom_le (u : Text) : (discardBom u).length ≤ u.length := by
  by_cases h : u.head? = some unicodeBomCharacterRune
  · have hlen := length_discardBom h
    omega
  · rw [discardBom_of_ne h]

theorem length_flatMap_discardBom (us : List Text) :
    (us.flatMap discardBom).length ≤ us.flatten.length := by
  induction us with
  | nil => exact Nat.le_refl 0
  | cons u us ih =>
      have hle := length_discardBom_le u
      simp only [List.flatMap_cons, List.flatten_cons, List.length_append]
      omega

/-- Nothing is lost of texts none of which starts with the mark. -/
theorem flatMap_discardBom_iff (us : List Text) :
    us.flatMap discardBom = us.flatten ↔ ∀ u ∈ us, u.head? ≠ some unicodeBomCharacterRune := by
  induction us with
  | nil => simp
  | cons u us ih =>
      rw [List.flatMap_cons, List.flatten_cons, List.forall_mem_cons]
      by_cases hu : u.head? = some unicodeBomCharacterRune
      · -- what is lost is not made up for behind it
        refine iff_of_false ?_ fun h => h.1 hu
        intro h
        have hlen := congrArg List.length h
        have hlt := length_discardBom hu
        have hle := length_flatMap_discardBom us
        simp only [List.length_append] at hlen
        omega
      · rw [discardBom_of_ne hu, List.append_cancel_left_eq, ih]
        simp [hu]

theorem discardBom_append (h : u ≠ []) (t : Text) : discardBom (u ++ t) = discardBom u ++ t := by
  cases u with
  | nil => exact absurd rfl h
  | cons c u =>
      rw [List.cons_append, discardBom, discardBom]
      split <;> rfl

/-- The mark in front of the first of the texts is discarded from their concatenation as well. -/
theorem flatMap_discardBom_eq_iff (us : List Text) :
    us.flatMap discardBom = discardBom us.flatten ↔
      ∀ u ∈ (us.filter (· ≠ [])).tail, u.head? ≠ some unicodeBomCharacterRune := by
  induction us with
  | nil => simp
  | cons u us ih =>
      by_cases hu : u = []
      · subst hu
        simpa using ih
      · have hfilter : (u :: us).filter (· ≠ []) = u :: us.filter (· ≠ []) :=
          List.filter_cons_of_pos (by simpa using hu)
        rw [hfilter, List.tail_cons, List.flatMap_cons, List.flatten_cons, discardBom_append hu,
          List.append_cancel_left_eq, flatMap_discardBom_iff]
        constructor
        · intro h v hv
          exact h v (List.mem_of_mem_filter hv)
        · intro h v hv
          by_cases hnil : v = []
          · simp [hnil]
          · exact h v (List.mem_filter.2 ⟨hv, by simpa using hnil⟩)

end Discard

/-! ## Decoding in packets -/

section Packets

variable {packets : List Bytes} {t : Text}

theorem bomBytes_prefix_iff (u : Text) :
    bomBytes <+: Utf8.encode u ↔ u.head? = some unicodeBomCharacterRune := by
  have hbom : bomBytes = Utf8.encode [unicodeBomCharacterRune] := by decide
  constructor
  · rintro ⟨rest, hrest⟩
    have hu := congrArg Utf8.decode hrest
    rw [hbom, Utf8.decode_encode_append, Utf8.decode_encode] at hu
    rw [← hu]
    rfl
  · intro h
    cases u with
    | nil => cases h
    | cons c u =>
        obtain rfl := Option.some.inj h
        exact ⟨Utf8.encode u, by rw [hbom, ← Utf8.encode_append, List.singleton_append]⟩

theorem encode_eq_nil_iff (u : Text) : Utf8.encode u = [] ↔ u = [] := by
  refine ⟨Utf8.encode_eq_nil, ?_⟩
  rintro rfl
  rfl

/-- Packets of whole characters. -/
theorem textOf_map_encode (us : List Text) :
    textOf (us.map Utf8.encode) = us.flatMap discardBom := by
  rw [textOf, List.flatMap_map]
  simp [utf8DecodeMalformed]

theorem unmarked_map_encode (us : List Text) :
    (∀ p ∈ ((us.map Utf8.encode).filter (· ≠ [])).tail, ¬ bomBytes <+: p) ↔
      ∀ u ∈ (us.filter (· ≠ [])).tail, u.head? ≠ some unicodeBomCharacterRune := by
  have hfilter : (us.map Utf8.encode).filter (· ≠ []) = (us.filter (· ≠ [])).map Utf8.encode := by
    rw [List.filter_map]
    congr 1
    apply List.filter_congr
    intro u _
    simp [encode_eq_nil_iff]
  rw [hfilter, ← List.map_tail, List.forall_mem_map]
  simp only [bomBytes_prefix_iff, ne_eq]

theorem countP_textOf (packets : List Bytes) :
    (textOf packets).countP (· ≠ unicodeBomCharacterRune) =
      (packets.flatMap Utf8.decode).countP (· ≠ unicodeBomCharacterRune) := by
  induction packets with
  | nil => rfl
  | cons p packets ih =>
      have hp := countP_discardBom (Utf8.decode p)
      rw [textOf] at ih ⊢
      rw [List.flatMap_cons, List.flatMap_cons, List.countP_append, List.countP_append, ih,
        utf8DecodeMalformed, hp]

theorem exists_texts (h : ∀ p ∈ packets, ∃ u, p = Utf8.encode u) :
    ∃ us : List Text, packets = us.map Utf8.encode := by
  induction packets with
  | nil => exact ⟨[], rfl⟩
  | cons p packets ih =>
      obtain ⟨hp, hrest⟩ := List.forall_mem_cons.1 h
      obtain ⟨u, rfl⟩ := hp
      obtain ⟨us, rfl⟩ := ih hrest
      exact ⟨u :: us, rfl⟩

theorem textOf_iff (h : packets.flatten = Utf8.encode t) :
    textOf packets = utf8DecodeMalformed (Utf8.encode t) ↔ Whole packets := by
  have hwhole : ∀ us : List Text, packets = us.map Utf8.encode →
      (textOf packets = utf8DecodeMalformed (Utf8.encode t) ↔
        ∀ p ∈ (packets.filter (· ≠ [])).tail, ¬ bomBytes <+: p) := by
    rintro us rfl
    have ht : us.flatten = t := by
      rw [← Utf8.decode_encode us.flatten, ← Utf8.decode_encode t, ← h, ← Utf8.encode_flatten]
    rw [unmarked_map_encode, textOf_map_encode, utf8DecodeMalformed, Utf8.decode_encode, ← ht,
      flatMap_discardBom_eq_iff]
  constructor
  · intro heq
    -- the characters other than the mark are not more than in the stream
    have hcount := congrArg (List.countP (· ≠ unicodeBomCharacterRune)) heq
    rw [countP_textOf, utf8DecodeMalformed, Utf8.decode_encode, countP_discardBom] at hcount
    have hencoded := Utf8.encoded_of_countP (by decide) h hcount.le
    obtain ⟨us, hus⟩ := exists_texts hencoded
    exact ⟨hencoded, (hwhole us hus).1 heq⟩
  · rintro ⟨hencoded, hunmarked⟩
    obtain ⟨us, hus⟩ := exists_texts hencoded
    exact (hwhole us hus).2 hunmarked

end Packets

/-! ## The frames of a stream -/

namespace TerminalService

variable (D : Dart)

/-- The steps of the service on these events, with their effects. -/
def perform (c : TerminalService) :
    List TerminalEvent → Option (TerminalService × List TerminalEffect)
  | [] => some (c, [])
  | e :: es =>
      (c.step D e).bind fun r => (r.1.perform es).map fun last => (last.1, r.2 ++ last.2)

/-- Frames that arrive one after the other, each decrypted before the next. -/
def inTurn (raws : List Text) : List TerminalEvent :=
  raws.flatMap fun raw => [.message raw, .decrypted 0]

/-- The packet of a `pty` frame whose payload decrypts. -/
def Arrival.packet : Arrival → Option Bytes
  | .decrypt { kind := .pty, seq := _, outcome := outcome } => outcome
  | _ => none

/-- A `pty` frame of the present session whose payload decrypts to the packet. -/
def Delivers (c : TerminalService) (raw : Text) (packet : Bytes) : Prop :=
  (c.arrival D raw).packet = some packet

variable {D} {c d : TerminalService}

theorem Arrival.eq_of_packet {a : Arrival} {packet : Bytes} (h : a.packet = some packet) :
    ∃ seq, a = .decrypt { kind := .pty, seq := seq, outcome := some packet } := by
  cases a with
  | skip => cases h
  | recover => cases h
  | decrypt p =>
      obtain ⟨kind, seq, outcome⟩ := p
      cases kind with
      | pty => exact ⟨seq, by rw [← h]; rfl⟩
      | syncWarn => cases h

theorem arrival_ws (h : d.ws = c.ws) (raw : Text) : d.arrival D raw = c.arrival D raw := by
  simp only [arrival, receive, h]

theorem track_facts (c : TerminalService) (seq : Option Json) :
    (c.track seq).ws = c.ws ∧ (c.track seq).pending = c.pending ∧
      (c.predictedEcho = [] → (c.track seq).predictedEcho = []) := by
  rw [track]
  split
  · rw [scheduleSyncRecovery]
    split
    · exact ⟨rfl, rfl, id⟩
    · exact ⟨rfl, rfl, fun _ => rfl⟩
  · exact ⟨rfl, rfl, id⟩
  · exact ⟨rfl, rfl, id⟩

/-- A frame without predictions is written as it is. -/
theorem perform_frame {raw : Text} {packet : Bytes} (hpending : c.pending = [])
    (hpredicted : c.predictedEcho = []) (h : c.Delivers D raw packet) (es : List TerminalEvent) :
    ∃ (d : TerminalService) (seq : Option Json), d.ws = c.ws ∧ d.pending = [] ∧ d.predictedEcho = [] ∧
      c.perform D (.message raw :: .decrypted 0 :: es) =
        (d.perform D es).map fun last => (last.1, .output seq packet packet :: last.2) := by
  obtain ⟨seq, harr⟩ := Arrival.eq_of_packet h
  obtain ⟨hws, hpend, hpred⟩ := track_facts { c with pending := [], predictedEcho := [] } seq
  refine ⟨track { c with pending := [], predictedEcho := [] } seq, seq, hws, hpend, hpred rfl, ?_⟩
  have hstrip : stripPredictedEcho c.predictedEcho packet = ([], packet) := by
    rw [hpredicted]
    rfl
  have hmessage : c.step D (.message raw) = some ({ c with pending :=
      [{ kind := .pty, seq := seq, outcome := some packet }] }, []) := by
    simp [step, handleMessage, harr, hpending]
  rw [perform, hmessage, Option.bind_some, perform]
  simp [step, resume, resumePty, hstrip, Function.comp_def]

theorem Delivers.congr {raw : Text} {packet : Bytes} (h : c.Delivers D raw packet)
    (hws : d.ws = c.ws) : d.Delivers D raw packet := by
  rw [Delivers, arrival_ws hws]
  exact h

/-- The handler writes the packets of the frames, each decoded on its own. -/
theorem perform_written {raws : List Text} {packets : List Bytes} (hws : d.ws = c.ws)
    (hpending : d.pending = []) (hpredicted : d.predictedEcho = [])
    (h : List.Forall₂ (c.Delivers D) raws packets) :
    ∃ last effs, d.perform D (inTurn raws) = some (last, effs) ∧
      effs.flatMap TerminalEffect.written = textOf packets := by
  induction h generalizing d with
  | nil => exact ⟨d, [], rfl, rfl⟩
  | @cons raw packet raws packets hframe _ ih =>
      obtain ⟨m, seq, hmws, hmpending, hmpredicted, hperform⟩ :=
        perform_frame hpending hpredicted (hframe.congr hws) (inTurn raws)
      obtain ⟨last, effs, hlast, hwritten⟩ := ih (hmws.trans hws) hmpending hmpredicted
      refine ⟨last, .output seq packet packet :: effs, ?_, ?_⟩
      · rw [inTurn, List.flatMap_cons, List.cons_append, List.cons_append, List.nil_append,
          ← inTurn, hperform, hlast]
        rfl
      · have hpacket : (TerminalEffect.output seq packet packet).written =
            utf8DecodeMalformed packet := by
          rw [TerminalEffect.written]
          split
          · next hnil =>
              rw [hnil]
              rfl
          · rfl
        rw [List.flatMap_cons, hwritten, hpacket]
        rfl

/-- The text written for a stream in `pty` frames is the decoding of the stream exactly when the packets
are whole. -/
theorem text_iff_whole (D : Dart) (c : TerminalService) (raws : List Text) (packets : List Bytes)
    (t : Text) (hpending : c.pending = []) (hpredicted : c.predictedEcho = [])
    (hframes : List.Forall₂ (c.Delivers D) raws packets)
    (hstream : packets.flatten = Utf8.encode t) :
    ∃ last effs, c.perform D (inTurn raws) = some (last, effs) ∧
      (effs.flatMap TerminalEffect.written = utf8DecodeMalformed (Utf8.encode t) ↔
        Whole packets) := by
  obtain ⟨last, effs, hperform, hwritten⟩ := perform_written rfl hpending hpredicted hframes
  refine ⟨last, effs, hperform, ?_⟩
  rw [hwritten]
  exact textOf_iff hstream

/-! ## A character in two frames -/

namespace Sample

open Agent.Sample (output)

def chunks : List (Option EncryptedEnvelope) :=
  [output 1 [0xC3], output 2 [0xA9], output 3 [0xC3, 0xA9], output 4 [0x21, 0xC3, 0xA9]]

/-- Libraries that read these chunks. -/
def dart : Dart :=
  Agent.Sample.dart ((chunks.flatMap Option.toList).map EncryptedEnvelope.toJson)

end Sample

open Agent.Sample (frame service)

/-- The text é!é in two frames. -/
theorem text_iff_whole_accent :
    ∃ last effs, service.perform Sample.dart
        (inTurn [frame 3 [0xC3, 0xA9], frame 4 [0x21, 0xC3, 0xA9]]) = some (last, effs) ∧
      (effs.flatMap TerminalEffect.written = utf8DecodeMalformed (Utf8.encode ['é', '!', 'é']) ↔
        Whole [[0xC3, 0xA9], [0x21, 0xC3, 0xA9]]) :=
  text_iff_whole Sample.dart service [frame 3 [0xC3, 0xA9], frame 4 [0x21, 0xC3, 0xA9]]
    [[0xC3, 0xA9], [0x21, 0xC3, 0xA9]] ['é', '!', 'é'] rfl rfl
    (.cons (by unfold Delivers; decide +kernel) (.cons (by unfold Delivers; decide +kernel) .nil))
    (by decide)

/-- The character é in two frames is written as two replacement characters. -/
theorem split_character_is_replaced :
    ([[0xC3], [0xA9]] : List Bytes).flatten = Utf8.encode ['é'] ∧
      (service.perform Sample.dart (inTurn [frame 1 [0xC3], frame 2 [0xA9]])).map
          (fun last => last.2.flatMap TerminalEffect.written) =
        some [Utf8.replacement, Utf8.replacement] ∧
      utf8DecodeMalformed (Utf8.encode ['é']) = ['é'] := by
  decide +kernel

end TerminalService

end Ktty.Client
