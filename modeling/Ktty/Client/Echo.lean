import Ktty.Client.TerminalService

/-!
# Echo suppression over packets

`_stripPredictedEcho` on the packets of a stream, one after the other. As long as the stream agrees with
the predictions, the cuts do not matter. Where the stream departs from them, the packet that holds the
departing byte is returned whole, with the bytes of it that have been matched before: what is shown is
the stream from the start of that packet on (`stripAll_of_departure`). So two ways of cutting a stream
leave the same predictions, and they show the same bytes exactly when the packets of the departure begin
at the same place (`strip_independent_iff`).
-/

set_option autoImplicit false

namespace Ktty.Client

open Ktty.Wire

/-- `_stripPredictedEcho` on consecutive packets: the remaining predictions and the bytes to write. -/
def stripAll (predicted : Bytes) : List Bytes → Bytes × Bytes
  | [] => (predicted, [])
  | packet :: packets =>
      let (rest, filtered) := stripPredictedEcho predicted packet
      let (last, more) := stripAll rest packets
      (last, filtered ++ more)

theorem stripAll_cons (predicted packet : Bytes) (packets : List Bytes) :
    stripAll predicted (packet :: packets) =
      ((stripAll (stripPredictedEcho predicted packet).1 packets).1,
        (stripPredictedEcho predicted packet).2 ++
          (stripAll (stripPredictedEcho predicted packet).1 packets).2) := rfl

/-- The position at which a stream departs from the predictions. -/
def departure : Bytes → Bytes → Option Nat
  | p :: predicted, b :: stream => if b = p then (departure predicted stream).map (· + 1) else some 0
  | _, _ => none

/-- Where the packet begins that holds the `m`-th byte of the stream. -/
def packetStart : List Bytes → Nat → Nat
  | [], _ => 0
  | packet :: packets, m =>
      if m < packet.length then 0 else packet.length + packetStart packets (m - packet.length)

/-! ## Departures -/

section Departure

variable {predicted x y : Bytes} {m : Nat}

@[simp] theorem departure_nil_left (stream : Bytes) : departure [] stream = none := by
  cases stream <;> rfl

@[simp] theorem departure_nil_right (predicted : Bytes) : departure predicted [] = none := by
  cases predicted <;> rfl

theorem departure_lt (h : departure predicted x = some m) : m < x.length ∧ m < predicted.length := by
  induction predicted generalizing x m with
  | nil => simp at h
  | cons p predicted ih =>
      cases x with
      | nil => simp at h
      | cons b x =>
          rw [departure] at h
          split at h
          · obtain ⟨k, hk, rfl⟩ := Option.map_eq_some_iff.1 h
            have hlt := ih hk
            simp
            omega
          · obtain rfl := Option.some.inj h
            simp

/-- A departure in the first part is one of the whole. -/
theorem departure_append_of_some (y : Bytes) (h : departure predicted x = some m) :
    departure predicted (x ++ y) = some m := by
  induction predicted generalizing x m with
  | nil => simp at h
  | cons p predicted ih =>
      cases x with
      | nil => simp at h
      | cons b x =>
          rw [departure] at h
          rw [List.cons_append, departure]
          split at h
          · rename_i hb
            obtain ⟨k, hk, rfl⟩ := Option.map_eq_some_iff.1 h
            rw [if_pos hb, ih hk]
            rfl
          · rename_i hb
            rw [if_neg hb, h]

/-- Without a departure in the first part, the rest of the stream meets the rest of the predictions. -/
theorem departure_append_of_none (y : Bytes) (h : departure predicted x = none) :
    departure predicted (x ++ y) = (departure (predicted.drop x.length) y).map (· + x.length) := by
  induction predicted generalizing x with
  | nil => simp
  | cons p predicted ih =>
      cases x with
      | nil => simp
      | cons b x =>
          rw [departure] at h
          rw [List.cons_append, departure]
          split at h
          · rename_i hb
            rw [if_pos hb, ih (Option.map_eq_none_iff.1 h)]
            simp [Function.comp_def, Nat.add_assoc]
          · cases h

end Departure

/-! ## One packet -/

theorem matchEcho_eq (predicted packet : Bytes) :
    matchEcho predicted packet =
      if departure predicted packet = none then
        some (predicted.drop packet.length, packet.drop predicted.length)
      else none := by
  induction predicted generalizing packet with
  | nil => cases packet <;> simp [matchEcho]
  | cons p predicted ih =>
      cases packet with
      | nil => simp [matchEcho]
      | cons b packet =>
          rw [matchEcho, departure]
          by_cases hb : b = p
          · simp [hb, ih]
          · simp [hb]

theorem strip_of_none {predicted packet : Bytes} (h : departure predicted packet = none) :
    stripPredictedEcho predicted packet =
      (predicted.drop packet.length, packet.drop predicted.length) := by
  rw [stripPredictedEcho, matchEcho_eq, if_pos h]

theorem strip_of_some {predicted packet : Bytes} {m : Nat} (h : departure predicted packet = some m) :
    stripPredictedEcho predicted packet = ([], packet) := by
  rw [stripPredictedEcho, matchEcho_eq, if_neg (by simp [h])]

/-! ## A stream in packets -/

section Stream

variable {predicted : Bytes} {packets packets' : List Bytes} {m : Nat}

/-- Without predictions everything is shown. -/
theorem stripAll_nil (packets : List Bytes) : stripAll [] packets = ([], packets.flatten) := by
  induction packets with
  | nil => rfl
  | cons packet packets ih =>
      have hstrip : stripPredictedEcho [] packet = ([], packet) := by
        simp [strip_of_none]
      rw [stripAll_cons, hstrip, ih]
      rfl

/-- A stream that agrees with the predictions is shown behind them, however it is cut. -/
theorem stripAll_of_agreement (h : departure predicted packets.flatten = none) :
    stripAll predicted packets =
      (predicted.drop packets.flatten.length, packets.flatten.drop predicted.length) := by
  induction packets generalizing predicted with
  | nil => simp [stripAll]
  | cons packet packets ih =>
      rw [List.flatten_cons] at h
      have hpacket : departure predicted packet = none := by
        by_contra hne
        obtain ⟨m, hm⟩ := Option.ne_none_iff_exists'.1 hne
        rw [departure_append_of_some _ hm] at h
        cases h
      rw [departure_append_of_none _ hpacket, Option.map_eq_none_iff] at h
      rw [stripAll_cons, strip_of_none hpacket, ih h]
      simp [List.drop_append]

/-- A stream that departs is shown from the start of the packet that holds the departing byte. -/
theorem stripAll_of_departure (h : departure predicted packets.flatten = some m) :
    stripAll predicted packets = ([], packets.flatten.drop (packetStart packets m)) := by
  induction packets generalizing predicted m with
  | nil => simp at h
  | cons packet packets ih =>
      rw [List.flatten_cons] at h
      cases hpacket : departure predicted packet with
      | some k =>
          -- this packet departs and is returned whole
          rw [departure_append_of_some _ hpacket, Option.some.injEq] at h
          subst h
          rw [stripAll_cons, strip_of_some hpacket, stripAll_nil, packetStart,
            if_pos (departure_lt hpacket).1, List.drop_zero, List.flatten_cons]
      | none =>
          rw [departure_append_of_none _ hpacket] at h
          obtain ⟨k, hk, rfl⟩ := Option.map_eq_some_iff.1 h
          -- predictions are left for the packets behind it, so nothing of this one is shown
          have hlt := (departure_lt hk).2
          rw [List.length_drop] at hlt
          have hnothing : packet.drop predicted.length = [] := List.drop_eq_nil_of_le (by omega)
          have hskipped : packet.drop (packet.length + packetStart packets k) = [] :=
            List.drop_eq_nil_of_le (by omega)
          rw [stripAll_cons, strip_of_none hpacket, ih hk, hnothing, packetStart, if_neg (by omega),
            Nat.add_sub_cancel, List.flatten_cons, List.drop_append, hskipped,
            Nat.add_sub_cancel_left]

theorem packetStart_le (packets : List Bytes) (m : Nat) : packetStart packets m ≤ m := by
  induction packets generalizing m with
  | nil => exact Nat.zero_le m
  | cons packet packets ih =>
      rw [packetStart]
      split
      · exact Nat.zero_le m
      · have hle := ih (m - packet.length)
        omega

/-- Two ways of cutting a stream leave the same predictions. They show the same bytes if the stream
agrees with the predictions, and otherwise exactly when the packets with the departing byte begin at the
same place. -/
theorem strip_independent_iff (predicted : Bytes) (packets packets' : List Bytes)
    (h : packets.flatten = packets'.flatten) :
    (stripAll predicted packets).1 = (stripAll predicted packets').1 ∧
      ((stripAll predicted packets).2 = (stripAll predicted packets').2 ↔
        ∀ m, departure predicted packets.flatten = some m →
          packetStart packets m = packetStart packets' m) := by
  cases hdep : departure predicted packets.flatten with
  | none =>
      have hdep' : departure predicted packets'.flatten = none := by rw [← h, hdep]
      rw [stripAll_of_agreement hdep, stripAll_of_agreement hdep', h]
      simp
  | some m =>
      have hdep' : departure predicted packets'.flatten = some m := by rw [← h, hdep]
      rw [stripAll_of_departure hdep, stripAll_of_departure hdep', h]
      refine ⟨rfl, ?_⟩
      constructor
      · intro heq k hk
        obtain rfl := Option.some.inj hk
        -- both outputs end with the stream, so their lengths say where they begin
        have hlen := congrArg List.length heq
        rw [List.length_drop, List.length_drop] at hlen
        have hlt := (departure_lt hdep').1
        have hle := packetStart_le packets m
        have hle' := packetStart_le packets' m
        omega
      · intro hstart
        rw [hstart m rfl]

/-- The predictions `ab` and the stream `acx`, cut behind the departing byte or before it. -/
theorem strip_independent_acx :
    (stripAll [97, 98] [[97, 99], [120]]).1 = (stripAll [97, 98] [[97, 99, 120]]).1 ∧
      (stripAll [97, 98] [[97, 99], [120]]).2 = (stripAll [97, 98] [[97, 99, 120]]).2 := by
  obtain ⟨hrest, hshown⟩ :=
    strip_independent_iff [97, 98] [[97, 99], [120]] [[97, 99, 120]] (by decide)
  refine ⟨hrest, hshown.2 ?_⟩
  intro m hm
  obtain rfl : 1 = m := Option.some.inj hm
  decide

/-- The predictions `ab` and the stream `ax`: in one packet the confirmed `a` is shown again. -/
theorem confirmed_byte_shown_again :
    ([[97, 120]] : List Bytes).flatten = ([[97], [120]] : List Bytes).flatten ∧
      (stripAll [97, 98] [[97, 120]]).2 = [97, 120] ∧
      (stripAll [97, 98] [[97], [120]]).2 = [120] := by
  decide

end Stream

/-! ## The packets in the service -/

namespace TerminalService

/-- The handlers of `pty` frames with these numbers and payloads go on one after the other. -/
def resumeAll (c : TerminalService) : List (Int × Bytes) → TerminalService × List TerminalEffect
  | [] => (c, [])
  | (n, bytes) :: packets =>
      let (c, effs) := c.resumePty (some (.int n)) (some bytes)
      let (c, more) := c.resumeAll packets
      (c, effs ++ more)

end TerminalService

/-- The bytes that a `pty` frame shows. -/
def TerminalEffect.filtered : TerminalEffect → Bytes
  | .output _ _ filtered => filtered
  | _ => []

/-- The service shows what `_stripPredictedEcho` leaves of its packets. -/
theorem resumeAll_strip (c : TerminalService) (packets : List (Int × Bytes)) :
    ((c.resumeAll packets).1.predictedEcho,
        (c.resumeAll packets).2.flatMap TerminalEffect.filtered) =
      stripAll c.predictedEcho (packets.map (·.2)) := by
  induction packets generalizing c with
  | nil => rfl
  | cons packet packets ih =>
      obtain ⟨n, bytes⟩ := packet
      rw [List.map_cons, stripAll_cons]
      have hrest := ih (c.resumePty (some (.int n)) (some bytes)).1
      have hpredicted : (c.resumePty (some (.int n)) (some bytes)).1.predictedEcho =
          (stripPredictedEcho c.predictedEcho bytes).1 := rfl
      rw [hpredicted] at hrest
      rw [← hrest]
      rfl

end Ktty.Client
