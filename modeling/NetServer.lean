import NetServer.Lib.Transducer
import NetServer.Lib.TransitionSystem
import NetServer.Lib.CString
import NetServer.Lib.SlotList
import NetServer.Lib.OrderedLog
import NetServer.Lib.Template
import NetServer.Lib.PubSub
import NetServer.Lib.Json
import NetServer.Lib.PrintBuffer
import NetServer.Lib.Roster
import NetServer.Lib.Intrusive
import NetServer.Lib.WakeUp
import NetServer.Lib.Holding
import NetServer.Lib.Vt
import NetServer.Lib.EventStream
import NetServer.Lib.HttpMessage
import NetServer.Lib.Once
import NetServer.Lib.Credentials
import NetServer.Core.Fsm
import NetServer.Core.Registry
import NetServer.Core.Members
import NetServer.Core.Shutdown
import NetServer.Core.Connector
import NetServer.Core.Slots
import NetServer.Core.Main
import NetServer.Core.Startup
import NetServer.Core.AcceptLoop
import NetServer.Telnet.Proto
import NetServer.Telnet.ProtoStream
import NetServer.Telnet.Session
import NetServer.Telnet.Subneg
import NetServer.Telnet.Lifecycle
import NetServer.Telnet.Idle
import NetServer.Telnet.Window
import NetServer.Telnet.Output
import NetServer.Http.Proto
import NetServer.Http.Session
import NetServer.Http.RoundTrip
import NetServer.Http.Query
import NetServer.Http.Received
import NetServer.Http.ReadBounds
import NetServer.Http.ReadShutdown
import NetServer.Http.Transport
import NetServer.Chat.Db
import NetServer.Chat.Room
import NetServer.Chat.Screen
import NetServer.Chat.Service
import NetServer.Chat.Chat
import NetServer.Chat.HttpChat
import NetServer.Chat.Router
import NetServer.Chat.System
import NetServer.Chat.Steps
import NetServer.Chat.Threads
import NetServer.Chat.Bus
import NetServer.Chat.Subscribers
import NetServer.Chat.Delivery
import NetServer.Chat.Wakeup
import NetServer.Chat.Freshness
import NetServer.Chat.Ui
import NetServer.Chat.Anchor
import NetServer.Chat.Paging
import NetServer.Chat.Redraw
import NetServer.Chat.Terminal
import NetServer.Chat.Injection
import NetServer.Chat.Posts
import NetServer.Chat.Presence
import NetServer.Chat.Expiry
import NetServer.Chat.Json
import NetServer.Chat.JsonArray
import NetServer.Chat.History
import NetServer.Chat.Responses
import NetServer.Chat.Online
import NetServer.Chat.Flush
import NetServer.Chat.RoomView
import NetServer.Chat.Display
import NetServer.Chat.EventWire
import NetServer.Chat.Answers
import NetServer.Chat.Typing
import NetServer.Chat.Store
import NetServer.Web.Client
import NetServer.Web.Rooms
import NetServer.Web.Payload
import NetServer.Web.Post
