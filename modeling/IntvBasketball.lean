import IntvBasketball.Lib.Stream
import IntvBasketball.Lib.Ring
import IntvBasketball.Lib.Dict
import IntvBasketball.Lib.Mix
import IntvBasketball.Lib.Serial
import IntvBasketball.Lib.Monitor
import IntvBasketball.Console.Ram
import IntvBasketball.Console.Ui
import IntvBasketball.Console.Hook
import IntvBasketball.Console.Image
import IntvBasketball.Console.Resync
import IntvBasketball.Console.ImageRound
import IntvBasketball.Console.Session
import IntvBasketball.Console.Parser
import IntvBasketball.Console.Bounds
import IntvBasketball.Console.Pump
import IntvBasketball.Console.Lockstep
import IntvBasketball.Console.Isolation
import IntvBasketball.Console.Mailbox
import IntvBasketball.Console.Snapshot
import IntvBasketball.Console.StateFrame
import IntvBasketball.Console.Checksum
import IntvBasketball.Console.Frames
import IntvBasketball.Console.Fresh
import IntvBasketball.Console.Round
import IntvBasketball.Console.Ending
import IntvBasketball.Console.Heard
import IntvBasketball.Console.Gate
import IntvBasketball.Console.Calls
import IntvBasketball.Console.CrcRing
import IntvBasketball.Console.Stall
import IntvBasketball.Console.Transact
import IntvBasketball.Console.Name
import IntvBasketball.Console.Capture
import IntvBasketball.Duel.Invariant
import IntvBasketball.Duel.Margin
import IntvBasketball.Duel.Checks
import IntvBasketball.Duel.Agree
import IntvBasketball.Duel.Level
import IntvBasketball.Duel.Tale
import IntvBasketball.Duel.Wire
import IntvBasketball.Duel.Mirror
import IntvBasketball.Duel.Arrive
import IntvBasketball.Duel.Act
import IntvBasketball.Duel.Seats
import IntvBasketball.Duel.Pair
import IntvBasketball.Duel.Simulate
import IntvBasketball.Duel.Match
import IntvBasketball.Duel.Inputs
import IntvBasketball.Duel.Buttons
import IntvBasketball.Relay.Framing
import IntvBasketball.Relay.Server
import IntvBasketball.Relay.Origin
import IntvBasketball.Relay.CServer
import IntvBasketball.Relay.CDrop
import IntvBasketball.Relay.CTables
import IntvBasketball.Relay.CRun
import IntvBasketball.Relay.CLoop
import IntvBasketball.Relay.CTold
import IntvBasketball.Relay.CAgree
import IntvBasketball.Relay.Drop
import IntvBasketball.Relay.Paired
import IntvBasketball.Relay.Registry
import IntvBasketball.Relay.Hello
import IntvBasketball.Relay.Match
import IntvBasketball.Relay.Brackets
import IntvBasketball.Relay.Delivery
import IntvBasketball.Relay.Lobby
import IntvBasketball.Relay.Publisher
import IntvBasketball.Relay.Debounce
import IntvBasketball.Relay.Coalesce
import IntvBasketball.Relay.CrcLog
import IntvBasketball.Relay.CCrcLog
