import Ktty.Agent.SampleCrates
import Ktty.Client.RateLimit
import Ktty.Lib.Trace

/-!
# The same PIN on both sides

The agent asks for its PIN once, in `main`; the dashboard reads its PIN field at every call of `_connect`.
Each of them keeps the digits of what was typed and refuses fewer than eight. So whatever else stands
between the digits, and whichever attempts are under way at once, a handshake of the client is for the
room of the agent exactly when the same digits were typed on both sides, as long as the keys of the two
PINs do not collide (`handshakes_find_agent`).
-/

set_option autoImplicit false

namespace Ktty.Protocol.Rendezvous

open Ktty.Wire Ktty.Crypto Ktty.Agent Ktty.Client Ktty.Lib.Execution Ktty.Lib.Trace

/-! ## The prompt of the agent -/

/-- The characters that `str::trim` removes: Unicode white space. -/
def rustWhitespace (c : Char) : Bool :=
  let n := c.toNat
  (9 ≤ n && n ≤ 13) || n == 0x20 || n == 0x85 || n == 0xA0 || n == 0x1680 ||
    (0x2000 ≤ n && n ≤ 0x200A) || n == 0x2028 || n == 0x2029 || n == 0x202F || n == 0x205F || n == 0x3000

/-- `is_ascii_digit`, and what `[^0-9]` spares in Dart. -/
def isAsciiDigit (c : Char) : Bool := '0' ≤ c && c ≤ '9'

/-- The PIN of `main`. -/
def agentPin (line : Text) : Text :=
  ((line.dropWhile rustWhitespace).rdropWhile rustWhitespace).filter isAsciiDigit

/-- The session that `main` runs; with a short PIN it exits. -/
def agentSession (L : Crates) (line : Text) : Option Session :=
  if (agentPin line).length < 8 then none
  else some { crates := L, derivedKey := L.prim.argon2id (agentPin line) }

section Digits

/-- What is dropped at the start and at the end holds no digit. -/
theorem filter_trim {p q : Char → Bool} (h : ∀ c, p c = true → q c = false) (t : Text) :
    ((t.dropWhile p).rdropWhile p).filter q = t.filter q := by
  have hfront : ∀ t : Text, (t.dropWhile p).filter q = t.filter q := by
    intro t
    induction t with
    | nil => rfl
    | cons c t ih =>
        by_cases hc : p c = true
        · rw [List.dropWhile_cons_of_pos hc, ih, List.filter_cons_of_neg (by simp [h c hc])]
        · rw [List.dropWhile_cons_of_neg hc]
  rw [List.rdropWhile, List.filter_reverse, hfront, ← List.filter_reverse, List.reverse_reverse, hfront]

theorem toNat_of_digit {c : Char} (h : isAsciiDigit c = true) : 48 ≤ c.toNat ∧ c.toNat ≤ 57 := by
  simp only [isAsciiDigit, Bool.and_eq_true, decide_eq_true_eq, Char.le_def, UInt32.le_iff_toNat_le] at h
  exact h

/-- A digit is no white space. -/
theorem isAsciiDigit_of_space {c : Char} (h : isWhitespace c = true) : isAsciiDigit c = false := by
  rw [Bool.eq_false_iff]
  intro hdigit
  obtain ⟨hlow, hhigh⟩ := toNat_of_digit hdigit
  simp only [isWhitespace, Bool.or_eq_true, Bool.and_eq_true, decide_eq_true_eq, beq_iff_eq] at h
  omega

theorem agentPin_eq (line : Text) : agentPin line = line.filter isAsciiDigit := by
  apply filter_trim
  intro c hc
  apply isAsciiDigit_of_space
  -- Dart removes one character more:
  show (rustWhitespace c || c.toNat == 0xFEFF) = true
  rw [hc]
  rfl

theorem pinOf_eq (t : Text) : pinOf t = t.filter isAsciiDigit :=
  filter_trim (fun _ => isAsciiDigit_of_space) t

end Digits

/-! ## The dashboard -/

section Run

variable (kIsWeb : Bool)

/-- The step of the dashboard without its effects. -/
def next (s : Dashboard) (e : DashboardEvent) : Option Dashboard := (s.step kIsWeb e).map (·.1)

/-- What the dashboard does in a step. -/
def effects (s : Dashboard) (e : DashboardEvent) : List DashboardEffect :=
  ((s.step kIsWeb e).map (·.2)).getD []

/-- The PIN comes from a call with this PIN field, and it is long enough. -/
def TypedIn (es : List DashboardEvent) (pin : Text) : Prop :=
  ∃ pinText urlText, .connect pinText urlText ∈ es ∧ pin = pinOf pinText ∧ 8 ≤ pin.length

/-- An attempt that is not over has a PIN that was typed in. -/
def PinsTyped (es : List DashboardEvent) (s : Dashboard) : Prop := ∀ a ∈ s.attempts, TypedIn es a.pin

variable {kIsWeb} {es : List DashboardEvent} {s m : Dashboard} {e : DashboardEvent}

/-- A call that begins no attempt. -/
structure Refuses (s : Dashboard) (r : Dashboard × List DashboardEffect) : Prop where
  attempts : r.1.attempts = s.attempts
  effects : ∀ eff ∈ r.2, ∃ content seconds, eff = .snackBar content seconds

/-- A call that begins an attempt with this URL and this PIN. -/
structure Begins (s : Dashboard) (url pin : Text) (r : Dashboard × List DashboardEffect) : Prop where
  attempts : ∃ a, a.pin = pin ∧ r.1.attempts = s.attempts ++ [a]
  effects : r.2 = [.connect url]
  tls : usesTls url = true

theorem connectTo_cases (s : Dashboard) (url pin : Text) :
    Refuses s (s.connectTo url pin) ∨ Begins s url pin (s.connectTo url pin) := by
  rw [Dashboard.connectTo]
  split_ifs with hempty htls
  · exact Or.inl ⟨rfl, by simp⟩
  · exact Or.inl ⟨rfl, by simp⟩
  · exact Or.inr ⟨⟨_, rfl, rfl⟩, rfl, by simpa using htls⟩

/-- A call is refused, or its PIN is long enough. -/
theorem connect_cases (s : Dashboard) (pinText urlText : Text) :
    Refuses s (s.connect kIsWeb pinText urlText) ∨
      8 ≤ (pinOf pinText).length ∧
        Begins s (trim urlText) (pinOf pinText) (s.connect kIsWeb pinText urlText) := by
  have hlocked : s.isLockedOut.2.attempts = s.attempts := Dashboard.isLockedOut_attempts s
  rw [Dashboard.connect]
  split_ifs with hempty hshort
  · exact Or.inl ⟨rfl, by simp⟩
  · exact Or.inl ⟨rfl, by simp⟩
  · -- the limiter comes first, and an expired lockout is cleared
    dsimp only
    split_ifs
    · exact Or.inl ⟨hlocked, by simp⟩
    · rcases connectTo_cases s.isLockedOut.2 (trim urlText) (pinOf pinText) with h | h
      · exact Or.inl ⟨h.attempts.trans hlocked, h.effects⟩
      · obtain ⟨a, hpin, hattempts⟩ := h.attempts
        rw [hlocked] at hattempts
        exact Or.inr ⟨Nat.not_lt.1 hshort, ⟨⟨a, hpin, hattempts⟩, h.effects, h.tls⟩⟩
  · rcases connectTo_cases s (trim urlText) (pinOf pinText) with h | h
    · exact Or.inl h
    · exact Or.inr ⟨Nat.not_lt.1 hshort, h⟩

/-- The pins of the attempts stay what they are when an attempt goes on. -/
theorem mem_setStage {i : Nat} {a b : Attempt} {stage : AttemptStage} (ha : s.attempts[i]? = some a)
    (hb : b ∈ (s.setStage i a stage).attempts) : ∃ b' ∈ s.attempts, b.pin = b'.pin := by
  rcases List.mem_or_eq_of_mem_set hb with hb | rfl
  · exact ⟨b, hb, rfl⟩
  · exact ⟨a, List.mem_of_getElem? ha, rfl⟩

/-- A step with the attempts that there are. -/
structure GoesOn (s : Dashboard) (r : Dashboard × List DashboardEffect) : Prop where
  attempts : ∀ b ∈ r.1.attempts, ∃ a ∈ s.attempts, b.pin = a.pin
  connects : ∀ url, .connect url ∉ r.2
  handshakes : ∀ pin, .performHandshake pin ∈ r.2 → ∃ a ∈ s.attempts, a.pin = pin

theorem goesOn_same {r : Dashboard × List DashboardEffect} (hattempts : r.1.attempts = s.attempts)
    (heffects : r.2 = []) : GoesOn s r := by
  refine ⟨?_, ?_, ?_⟩
  · rw [hattempts]
    exact fun b hb => ⟨b, hb, rfl⟩
  · simp [heffects]
  · simp [heffects]

theorem goesOn_fail {i : Nat} {a : Attempt} (ha : s.attempts[i]? = some a) (error : Text) :
    GoesOn s (s.fail i a error) := by
  rw [Dashboard.fail]
  split_ifs
  · exact ⟨fun b hb => mem_setStage ha hb, by simp, by simp⟩
  · exact ⟨fun b hb => mem_setStage ha hb, by simp, by simp⟩

theorem goesOn_succeed {i : Nat} {a : Attempt} (ha : s.attempts[i]? = some a) :
    GoesOn s (s.succeed i a) := by
  rw [Dashboard.succeed]
  split_ifs
  · exact ⟨fun b hb => mem_setStage ha hb, by simp, by simp⟩
  · exact ⟨fun b hb => mem_setStage ha hb, by simp, by simp⟩

/-- The handshake of an attempt is for its own PIN. -/
theorem goesOn_connected {i : Nat} {a : Attempt} (ha : s.attempts[i]? = some a) :
    GoesOn s (s.connected i a) := by
  refine ⟨fun b hb => mem_setStage ha hb, by simp [Dashboard.connected], ?_⟩
  intro pin hpin
  have hsame : pin = a.pin := by simpa [Dashboard.connected] using hpin
  exact ⟨a, List.mem_of_getElem? ha, hsame.symm⟩

/-- Only a call begins an attempt. -/
theorem step_cases {r : Dashboard × List DashboardEffect} (h : s.step kIsWeb e = some r) :
    (∃ pinText urlText, e = .connect pinText urlText ∧ r = s.connect kIsWeb pinText urlText) ∨
      GoesOn s r := by
  cases e with
  | connect pinText urlText =>
      rw [Dashboard.step] at h
      split_ifs at h
      cases h
      exact Or.inl ⟨pinText, urlText, rfl, rfl⟩
  | relay i error =>
      obtain ⟨a, ha, rfl⟩ := Option.map_eq_some_iff.1 h
      cases error with
      | none => exact Or.inr (goesOn_connected (Dashboard.attemptAt_some ha).1)
      | some text => exact Or.inr (goesOn_fail (Dashboard.attemptAt_some ha).1 text)
  | handshake i error =>
      obtain ⟨a, ha, rfl⟩ := Option.map_eq_some_iff.1 h
      cases error with
      | none => exact Or.inr (goesOn_succeed (Dashboard.attemptAt_some ha).1)
      | some text => exact Or.inr (goesOn_fail (Dashboard.attemptAt_some ha).1 text)
  | cooled i =>
      obtain ⟨a, ha, rfl⟩ := Option.map_eq_some_iff.1 h
      have hmem := (Dashboard.attemptAt_some ha).1
      refine Or.inr ⟨?_, by simp, by simp⟩
      intro b hb
      simp only [Dashboard.cooled] at hb
      split_ifs at hb
      · exact mem_setStage hmem hb
      · exact mem_setStage hmem hb
  | connectionChanged connected =>
      cases h
      exact Or.inr (goesOn_same rfl rfl)
  | disposed =>
      cases h
      exact Or.inr (goesOn_same rfl rfl)
  | shown =>
      rw [Dashboard.step] at h
      split_ifs at h
      cases h
      exact Or.inr (goesOn_same rfl rfl)
  | elapse d =>
      cases h
      exact Or.inr (goesOn_same rfl rfl)

/-- A step on an event of the list. -/
theorem pinsTyped_next (hs : PinsTyped es s) (he : e ∈ es) (h : next kIsWeb s e = some m) :
    PinsTyped es m := by
  obtain ⟨r, hr, rfl⟩ := Option.map_eq_some_iff.1 h
  rcases step_cases hr with ⟨pinText, urlText, rfl, rfl⟩ | hgoes
  · rcases connect_cases s pinText urlText with hrefuses | ⟨hlong, hbegins⟩
    · rw [PinsTyped, hrefuses.attempts]
      exact hs
    · obtain ⟨a, hpin, hattempts⟩ := hbegins.attempts
      rw [PinsTyped, hattempts]
      intro b hb
      rcases List.mem_append.1 hb with hb | hb
      · exact hs b hb
      · rw [List.mem_singleton.1 hb, hpin]
        exact ⟨pinText, urlText, he, rfl, hlong⟩
  · intro b hb
    obtain ⟨a, ha, hpin⟩ := hgoes.attempts b hb
    rw [hpin]
    exact hs a ha

/-- The handshakes of a step are for PINs that were typed in, and its connects use TLS. -/
theorem effects_typed (hs : PinsTyped es s) :
    (∀ pin, .performHandshake pin ∈ effects kIsWeb s e → TypedIn es pin) ∧
      ∀ url, .connect url ∈ effects kIsWeb s e → usesTls url = true := by
  rw [effects]
  cases hr : s.step kIsWeb e with
  | none => simp
  | some r =>
      show (∀ pin, .performHandshake pin ∈ r.2 → _) ∧ ∀ url, .connect url ∈ r.2 → _
      rcases step_cases hr with ⟨pinText, urlText, rfl, rfl⟩ | hgoes
      · rcases connect_cases s pinText urlText with hrefuses | ⟨-, hbegins⟩
        · constructor
          · intro pin hpin
            obtain ⟨content, seconds, heff⟩ := hrefuses.effects _ hpin
            cases heff
          · intro url hurl
            obtain ⟨content, seconds, heff⟩ := hrefuses.effects _ hurl
            cases heff
        · rw [hbegins.effects]
          constructor
          · intro pin hpin
            cases List.mem_singleton.1 hpin
          · intro url hurl
            cases List.mem_singleton.1 hurl
            exact hbegins.tls
      · constructor
        · intro pin hpin
          obtain ⟨a, ha, rfl⟩ := hgoes.handshakes pin hpin
          exact hs a ha
        · intro url hurl
          exact absurd hurl (hgoes.connects url)

theorem mem_effects {eff : DashboardEffect} (h : eff ∈ trace (next kIsWeb) (effects kIsWeb) .start es) :
    ∃ s e, PinsTyped es s ∧ eff ∈ effects kIsWeb s e := by
  obtain ⟨s, e, m, hs, -, -, heff⟩ := exists_step_of_mem (I := PinsTyped es) (E := (· ∈ es))
    (fun s e m hs he hm => pinsTyped_next hs he hm) (fun _ he => he) (by rintro a ⟨⟩) h
  exact ⟨s, e, hs, heff⟩

end Run

/-! ## One room -/

/-- Argon2id gives no key to both PINs, unless they are the same. -/
def KeysDiffer (P : Primitives Bytes Text) (pin pin' : Text) : Prop :=
  P.argon2id pin = P.argon2id pin' → pin = pin'

/-- In every run of the dashboard a connect uses TLS, and a handshake is for a PIN of eight or more digits
from a call of `_connect`; it goes to the room of the agent exactly when the line at the agent's prompt
has the same digits. -/
theorem handshakes_find_agent (L : Crates) (kIsWeb : Bool) (es : List DashboardEvent) :
    (∀ url, .connect url ∈ trace (next kIsWeb) (effects kIsWeb) .start es → usesTls url = true) ∧
    ∀ pin, .performHandshake pin ∈ trace (next kIsWeb) (effects kIsWeb) .start es →
      ∃ pinText urlText, .connect pinText urlText ∈ es ∧ pin = pinText.filter isAsciiDigit ∧
        8 ≤ pin.length ∧ ∀ line, KeysDiffer L.prim (line.filter isAsciiDigit) pin →
          ((∃ S, agentSession L line = some S ∧ S.roomId = roomId L.prim (L.prim.argon2id pin)) ↔
            line.filter isAsciiDigit = pinText.filter isAsciiDigit) := by
  constructor
  · intro url hurl
    obtain ⟨s, e, hs, heff⟩ := mem_effects hurl
    exact (effects_typed hs).2 url heff
  · intro pin hpin
    obtain ⟨s, e, hs, heff⟩ := mem_effects hpin
    obtain ⟨pinText, urlText, hmem, rfl, hlong⟩ := (effects_typed hs).1 pin heff
    rw [pinOf_eq] at hlong ⊢
    refine ⟨pinText, urlText, hmem, rfl, hlong, fun line hdiffer => ?_⟩
    rw [← agentPin_eq line] at hdiffer ⊢
    constructor
    · rintro ⟨S, hS, hroom⟩
      rw [agentSession] at hS
      split_ifs at hS
      cases hS
      -- the hex strings of the keys are equal, so the keys are
      rw [Session.roomId, Crypto.roomId, Crypto.roomId, L.hexEncode_eq, L.hexEncode_eq] at hroom
      exact hdiffer (Lib.Hex.encode_injective hroom)
    · intro hsame
      refine ⟨{ crates := L, derivedKey := L.prim.argon2id (agentPin line) }, ?_, ?_⟩
      · rw [agentSession, hsame, if_neg (Nat.not_lt.2 hlong)]
      · rw [hsame]
        rfl

/-! ## One handshake -/

/-- The crates with a key that has a byte for each digit. -/
def Sample.crates : Crates :=
  { Agent.Sample.crates [] with
    prim := { Agent.Sample.prim with argon2id := fun pin => pin.map fun c => UInt8.ofNat c.toNat }
    hexEncode_eq := fun _ => rfl }

/-- A user types the PIN in two groups, and the agent's prompt was given dashes. -/
def Sample.run : List DashboardEvent :=
  [.connect "1234 5678".toList "wss://relay".toList, .relay 0 none]

/-- They meet. -/
theorem handshakes_find_agent_groups :
    ∃ pin, .performHandshake pin ∈ trace (next false) (effects false) .start Sample.run ∧
      ∃ S, agentSession Sample.crates "12-34-56-78\n".toList = some S ∧
        S.roomId = roomId Sample.crates.prim (Sample.crates.prim.argon2id pin) := by
  have hmem : DashboardEffect.performHandshake "12345678".toList ∈
      trace (next false) (effects false) .start Sample.run := by decide +kernel
  obtain ⟨pinText, urlText, hcall, -, -, hroom⟩ :=
    (handshakes_find_agent Sample.crates false Sample.run).2 _ hmem
  obtain rfl : pinText = "1234 5678".toList := by
    simp [Sample.run] at hcall
    exact hcall.1
  exact ⟨_, hmem, (hroom _ fun _ => by decide +kernel).2 (by decide +kernel)⟩

end Ktty.Protocol.Rendezvous
