import Ktty.Lib.Execution
import Ktty.Lib.Base64
import Ktty.Wire.FrameSize
import Ktty.Wire.Messages
import Ktty.Agent.Shell
import Ktty.Agent.Offers
import Ktty.Relay.Ownership
import Ktty.Protocol.Teardown
import Ktty.Protocol.Dispatch
import Ktty.Client.TerminalService
import Ktty.Client.Acknowledge
import Ktty.Agent.Output
import Ktty.Protocol.Display
import Ktty.Agent.Replay
import Ktty.Protocol.Reconnect
import Ktty.Crypto.Symbolic
import Ktty.Crypto.Packing
import Ktty.Agent.Handshake
import Ktty.Client.Handshake
import Ktty.Protocol.Authentication
import Ktty.Relay.RoomMap
import Ktty.Relay.Members
import Ktty.Relay.FirstText
import Ktty.Protocol.Eviction
import Ktty.Agent.Preview
import Ktty.Agent.SyncReq
import Ktty.Agent.Retention
import Ktty.Agent.RelayToken
import Ktty.Agent.Rejects
import Ktty.Client.Connection
import Ktty.Client.ConnectionSteps
import Ktty.Client.CurrentChannel
import Ktty.Client.Outbound
import Ktty.Client.Disconnect
import Ktty.Client.Backoff
import Ktty.Client.RelayToken
import Ktty.Client.Echo
import Ktty.Client.Screen
import Ktty.Client.Decoding
import Ktty.Protocol.RoundTrip
import Ktty.Protocol.Tokens
import Ktty.Protocol.FrameSize
import Ktty.Client.LocalEcho
import Ktty.Client.Rendering
import Ktty.Client.Input
import Ktty.Client.Resize
import Ktty.Relay.Liveness
import Ktty.Client.Clipboard
import Ktty.Client.Paste
import Ktty.Wire.QuotedWords
import Ktty.Protocol.ControlWords
import Ktty.Client.Selection
import Ktty.Client.CopiedText
import Ktty.Agent.Replies
import Ktty.Client.RateLimit
import Ktty.Lib.Trace
import Ktty.Relay.Delivery
import Ktty.Protocol.Forwarding
import Ktty.Relay.Bounds
import Ktty.Client.Lifecycle
import Ktty.Client.Frames
import Ktty.Protocol.Keystrokes
import Ktty.Client.Recovery
import Ktty.Client.Statistics
import Ktty.Protocol.Completion
import Ktty.Client.Platforms
import Ktty.Protocol.Rendezvous
