import RillServer.Session.LogoutOwnership
import RillServer.Session.SingleSession
import RillServer.Session.Routing
import RillServer.Session.LoginOutcomes
import RillServer.Skynet.Calls
import RillServer.Agent.Room
import RillServer.Agent.Save
import RillServer.Netpack.Filter
import RillServer.Netpack.Close
import RillServer.Agent.HashCode
import RillServer.Agent.HashOrder
import RillServer.Agent.SaveRetry
import RillServer.Global.QueryBoard
import RillServer.Store.Accounts
import RillServer.Store.Counter
import RillServer.Store.Numbers
import RillServer.Store.Statements
import RillServer.Store.Selectors
import RillServer.Store.TableDesc
import RillServer.Rooms.Manager
import RillServer.Rooms.Sharing
import RillServer.Rooms.Release
import RillServer.Rooms.Starting
import RillServer.Rooms.Presence
import RillServer.Rooms.OneRoom
import RillServer.Rooms.Numbering
import RillServer.Netpack.Reading
import RillServer.Netpack.Requests
import RillServer.Netpack.MessageRing
import RillServer.Netpack.Lengths
import RillServer.Netpack.Encoders
import RillServer.Netpack.Overflow
import RillServer.Netpack.Handshake
import RillServer.Netpack.Strnpos
import RillServer.Client.Recv
import RillServer.Gateway.Server
import RillServer.Gateway.Framed
import RillServer.Gateway.Bookkeeping
import RillServer.Gateway.Headers
import RillServer.Timer.Wheel
import RillServer.Timer.Records
import RillServer.Timer.Schedule
import RillServer.Timer.Missed
import RillServer.Timer.Cancel
import RillServer.Rooms.DragonTiger
import RillServer.Rooms.LoopClock
import RillServer.Rooms.Broadcast
import RillServer.Rooms.Commands
import RillServer.Rooms.Requests
import RillServer.Host.Stop
import RillServer.Cards.Shuffle
import RillServer.Cards.Deck
import RillServer.Cards.ShuffleVariants
import RillServer.Cards.Dealing
import RillServer.Cards.Picking
import RillServer.Protopack.Crc32
import RillServer.Protopack.ProtoFiles
import RillServer.Protopack.Logging
import RillServer.Protopack.Packets
import RillServer.Protopack.Split
import RillServer.Protopack.Dispatch
import RillServer.Utils.Tables
import RillServer.Utils.Drawing
import RillServer.Zset.SortedSet
import RillServer.Skynet.Workers
import RillServer.Lib.TimingWheel
import RillServer.Skynet.Timer
import RillServer.Skynet.Timeouts
import RillServer.Skynet.SeriRoundTrip
import RillServer.Skynet.Queue
