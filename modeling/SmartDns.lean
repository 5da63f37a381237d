import SmartDns.Hpack.TableRuns
import SmartDns.Http2.HeaderSync
import SmartDns.Http2.HeaderBlocks
import SmartDns.Http2.RecvWindow
import SmartDns.Http2.SendWindow
import SmartDns.Http2.WireBytes
import SmartDns.Http2.Body
import SmartDns.Dns.NameFailures
import SmartDns.Http2.StreamLife
import SmartDns.Http2.StreamState
import SmartDns.Http2.Splits
import SmartDns.Http2.RecvBody
import SmartDns.Http3.RoundTrip
import SmartDns.Http3.QpackHuffman
import SmartDns.Http3.FieldFlags
import SmartDns.Server.TcpRequests
import SmartDns.Cache.Counts
import SmartDns.Cache.Timers
import SmartDns.Cache.Keys
import SmartDns.Cache.Memory
import SmartDns.Client.QueryLife
import SmartDns.Server.ReplySubnets
import SmartDns.Server.HttpsAlpn
import SmartDns.Server.RequestReplies
import SmartDns.Timer.OnTime
import SmartDns.Client.HttpsFraming
import SmartDns.Client.QuicFrames
import SmartDns.Server.ReplySharing
import SmartDns.Server.CnameChain
import SmartDns.Server.BestIps
import SmartDns.Client.QuerySubnets
import SmartDns.Client.ServerRemoval
import SmartDns.Ping.Replies
import SmartDns.Ping.Checksum
import SmartDns.Server.AlpnList
import SmartDns.Ui.Login
import SmartDns.Ui.StaticFiles
import SmartDns.Ui.Stats
