import HttpServer.Lib.Runs
import HttpServer.Lib.Slots
import HttpServer.Lib.Slots.Returns
import HttpServer.Lib.Slots.Work
import HttpServer.Lib.Slots.Destroy
import HttpServer.Worker
import HttpServer.Worker.Tasks
import HttpServer.SslServer
import HttpServer.SslServer.Step
import HttpServer.SslServer.Sessions
import HttpServer.SslServer.Clients
import HttpServer.Lib.OrderedSet
import HttpServer.Lib.Wildcard
import HttpServer.Request.Parse
import HttpServer.Router.Match
import HttpServer.Utils.Base64
import HttpServer.Utils.Sha1
import HttpServer.Response
import HttpServer.Server.Step
import HttpServer.Server.Segments
import HttpServer.Server.Isolation
import HttpServer.Server.Delivery
import HttpServer.Request.Head
import HttpServer.Lib.Digits
import HttpServer.Lib.Path
import HttpServer.Server.Framing
import HttpServer.Server.Static
import HttpServer.Client.RoundTrip
import HttpServer.Client.Post
import HttpServer.Client.Chunked
import HttpServer.WebSocket.Messages
import HttpServer.WebSocket.Handshake
import HttpServer.Client.Rounds
import HttpServer.Client.Complete
import HttpServer.Client.Recv
import HttpServer.WebSocket.Bounds
import HttpServer.Server.Upgrade
import HttpServer.Server.Unrouted
import HttpServer.Router.Effects
import HttpServer.Server.Phantom
import HttpServer.Utils.Digest
import HttpServer.Utils.Encoding
import HttpServer.Request.Query
import HttpServer.WebSocket.Writer
import HttpServer.Server.Send
import HttpServer.Client.Status
import HttpServer.Server.Resource
import HttpServer.Utils.Size
import HttpServer.Server.Etag
import HttpServer.Lib.Integral
import HttpServer.Utils.Env
import HttpServer.Logger
import HttpServer.Client.Factory
import HttpServer.Server.Registry
import HttpServer.Server.Stop
import HttpServer.Response.Stream
import HttpServer.Lib.Json
import HttpServer.Utils.Json
import HttpServer.SslServer.Siblings
import HttpServer.Client.Calls
import HttpServer.Client.Sockets
import HttpServer.HttpsClient.Request
import HttpServer.HttpsClient.Life
import HttpServer.HttpsClient.Reading
import HttpServer.Client.Exchange
import HttpServer.Logger.Lines
import HttpServer.WebSocket.Conversation
import HttpServer.SslServer.Send
import HttpServer.SslServer.Loop
import HttpServer.Client.Download
import HttpServer.WebSocketClient.Life
import HttpServer.Server.Pass
import HttpServer.Utils.Arguments
